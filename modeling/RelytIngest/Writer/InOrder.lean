import RelytIngest.Writer.OrderTripwire

/-!
# The order tripwire never fires

The stages hand the files on in the order in which they were sealed, and the put stage and the
progress channel remember the last of those that landed (`Remembers`). The file that the put stage
checks is therefore the next one sealed (`ReachableFrom.ordering_next`), which the check lets
through: in no run does the tripwire fire.
-/

set_option autoImplicit false
set_option relaxedAutoImplicit false

namespace RelytIngest

open Foundations

/-- The file whose put has returned and that has not landed. -/
def PutPlace.unlanded : PutPlace → List FileMeta
  | .returned m | .recording m | .announcing m | .landing m => [m]
  | .ready | .ended => []

namespace Writer

variable {β : Type} {cfg : WriterConfig β} {epochMs : Nat}
  {stagedOffset resumePersisted : Option Int} {w w' : Writer β}

/-- The put stage remembers the last file that landed, and so does the progress channel. -/
def Remembers (w : Writer β) : Prop :=
  w.pipe.put.hasExited = false → ∃ landed : List FileMeta,
    w.trace.putReturned = landed ++ (PutPlace.of w.pipe.put).unlanded ∧
      w.pipe.prev = (landed.getLast?.map fun m ↦ m.file.place) ∧
      w.progress.durableSeq = landed.getLast?.map FileMeta.serialSeq

/-- The put stage, what it has put and what is remembered of it are the same, and the tripwire has
not fired. -/
structure SamePut (w w' : Writer β) : Prop where
  put : w'.pipe.put = w.pipe.put
  prev : w'.pipe.prev = w.pipe.prev
  putReturned : w'.trace.putReturned = w.trace.putReturned
  durableSeq : w'.progress.durableSeq = w.progress.durableSeq
  orderFatal : w'.health.orderFatal = w.health.orderFatal

theorem SamePipeline.samePut (h : SamePipeline w w') : SamePut w w' where
  put := congrArg Pipeline.put h.pipe
  prev := congrArg Pipeline.prev h.pipe
  putReturned := h.putReturned
  durableSeq := congrArg Progress.durableSeq h.progress
  orderFatal := congrArg Health.orderFatal h.health

theorem samePut_holder {now : Nat} (hstep : HolderStep cfg w now w') : SamePut w w' := by
  cases hstep with
  | reserve | await | close | lose | proceed | permit => exact (SamePipeline.setPhase _ _).samePut
  | skip | yield | fail => exact (SamePipeline.finish _ _).samePut
  | report holder =>
    obtain ⟨hput, hprev, hreturned, hdurable, hfatal⟩ := (SamePipeline.finish
      (w := { w with progress := w.progress.pipelineGone.2 }) holder
      (.error w.progress.pipelineGone.1)).samePut
    exact ⟨hput, hprev, hreturned, hdurable.trans (Progress.pipelineGone_durableSeq _), hfatal⟩
  | cut holder =>
    have hfinish (st : WriterState β) (result : Except Error (Option Int)) :
        SamePut w (({ w with st := st } : Writer β).finish holder result) := by
      obtain ⟨hput, hprev, hreturned, hdurable, hfatal⟩ :=
        (SamePipeline.finish (w := { w with st := st }) holder result).samePut
      exact ⟨hput, hprev, hreturned, hdurable, hfatal⟩
    unfold cut
    split
    · exact hfinish _ _
    · exact hfinish _ _
    · constructor <;> rfl
  | send holder sealed =>
    obtain ⟨hput, hprev, hreturned, hdurable, hfatal⟩ := (SamePipeline.finish (w := { w with
      pipe := { w.pipe with queue := w.pipe.queue ++ [sealed] }
      trace := { w.trace with sent := w.trace.sent ++ [sealed.fileMeta] } }) holder
      (.ok (some sealed.fileMeta.serialSeq))).samePut
    exact ⟨hput, hprev, hreturned, hdurable, hfatal⟩

theorem samePut_render {action : Action β} (hstep : RenderStep cfg w action w') : SamePut w w' := by
  cases hstep with
  | take | run | calibrate | lose | send => constructor <;> rfl
  | drop file failures progress hrender hfenced =>
    exact ⟨rfl, rfl, rfl, fencedExit_durableSeq hfenced, rfl⟩
  | pass => exact ⟨rfl, rfl, rfl, passed_durableSeq _ _, rfl⟩
  | fail => exact ⟨rfl, rfl, rfl, Progress.reportFailure_durableSeq .., rfl⟩
  | giveUp => exact ⟨rfl, rfl, rfl, Progress.publishTerminal_durableSeq .., rfl⟩

theorem samePut_gzip {action : Action β} (hstep : GzipStep cfg w action w') : SamePut w w' := by
  cases hstep with
  | take | skip | close | run | lose | send => constructor <;> rfl
  | drop file failures progress hgzip hfenced =>
    exact ⟨rfl, rfl, rfl, fencedExit_durableSeq hfenced, rfl⟩
  | pass => exact ⟨rfl, rfl, rfl, passed_durableSeq _ _, rfl⟩
  | fail => exact ⟨rfl, rfl, rfl, Progress.reportFailure_durableSeq .., rfl⟩
  | giveUp => exact ⟨rfl, rfl, rfl, Progress.publishTerminal_durableSeq .., rfl⟩

/-- A step that is not one of the put stage leaves it alone. -/
theorem put_frame {action : Action β} (hstep : w.step cfg action = some w') :
    SamePut w w' ∨ PutStep cfg w action w' := by
  cases action with
  | appendCall | appendPush | appendUnbuffer | flushCall | flushLookup | flushAwait | flushRead
  | tick | tickerCheck | persistBegin | persistRecheck | persistWrite =>
    exact Or.inl (caller_frame hstep rfl).1.samePut
  | tryLock | acquire | stall => exact Or.inl (locker_frame hstep rfl).samePut
  | handOver => exact Or.inl (samePut_holder (holder_cases hstep))
  | receive | attempt | renderEnds | gzipEnds | putEnds | giveUp | calibrate | send | order
  | confirm | record | announce | land =>
    rcases stage_cases hstep rfl with hmove | hmove | hmove
    · exact Or.inl (samePut_render hmove)
    · exact Or.inl (samePut_gzip hmove)
    · exact Or.inr hmove
  | fence | serialViolation | notifierStops =>
    exact Or.inl (Option.some.inj hstep ▸ by constructor <;> rfl)

/-- The put stage goes on with what it remembers. -/
theorem Remembers.put_step (h : w.Remembers) {action : Action β} (hstep : PutStep cfg w action w') :
    w'.Remembers := by
  have hkept (hput : w.pipe.put.hasExited = false)
      (hplace : (PutPlace.of w'.pipe.put).unlanded = (PutPlace.of w.pipe.put).unlanded)
      (hprev : w'.pipe.prev = w.pipe.prev)
      (hreturned : w'.trace.putReturned = w.trace.putReturned)
      (hdurable : w'.progress.durableSeq = w.progress.durableSeq) : w'.Remembers := by
    intro _
    obtain ⟨landed, hlanded, hremembered, hseq⟩ := h hput
    exact ⟨landed, by rw [hreturned, hlanded, hplace], hprev.trans hremembered, hdurable.trans hseq⟩
  cases hstep with
  | take file rest hput | order file hput | run file failures hput | confirm m hput
  | record m hput | announce m hput =>
    refine hkept (by simp [hput, Stage.hasExited]) ?_ rfl rfl rfl
    simp [setPut, hput, PutPlace.of, PutPlace.unlanded]
  | fail trial file failures err hput =>
    refine hkept (by simp [hput, Stage.hasExited]) ?_ rfl rfl (Progress.reportFailure_durableSeq ..)
    simp only [setPut, hput, Stage.failed]
    split_ifs <;> rfl
  | close | dropUnordered | trip | drop | giveUp | dropReturned =>
    intro hexited
    simp [setPut, Stage.hasExited] at hexited
  | pass trial file failures hput =>
    obtain ⟨landed, hlanded, hremembered, hseq⟩ := h (by simp [hput, Stage.hasExited])
    rw [hput] at hlanded
    have hall : w.trace.putReturned = landed := hlanded.trans (List.append_nil landed)
    exact fun _ ↦ ⟨landed, congrArg (· ++ [file.fileMeta]) hall, hremembered,
      (passed_durableSeq _ _).trans hseq⟩
  | land m hput =>
    obtain ⟨landed, hlanded, -⟩ := h (by simp [hput, Stage.hasExited])
    rw [hput] at hlanded
    have hall : w.trace.putReturned = landed ++ [m] ++ [] := hlanded.trans (List.append_nil _).symm
    exact fun _ ↦ ⟨landed ++ [m], hall, by simp [StagedFile.place], by simp⟩

theorem ReachableFrom.remembers
    (hreach : ReachableFrom cfg epochMs stagedOffset resumePersisted w) : w.Remembers := by
  refine hreach.invariant (fun _ ↦ ⟨[], rfl, rfl, rfl⟩) fun before action after h hstep ↦ ?_
  rcases put_frame hstep with hsame | hmove
  · rw [Remembers, hsame.put, hsame.prev, hsame.putReturned, hsame.durableSeq]
    exact h
  · exact h.put_step hmove

/-- The file that is checked is the first one, or the one sealed next after the last that landed. -/
theorem ReachableFrom.ordering_next
    (hreach : ReachableFrom cfg epochMs stagedOffset resumePersisted w) {file : Compressed}
    (hput : w.pipe.put = .between (.ordering file)) :
    w.pipe.prev = none ∨ ∃ last ∈ w.sealedFiles, w.pipe.prev = some last.place ∧
      file.fileMeta.file.packed = last.packed + 1 := by
  obtain ⟨landed, hlanded, hremembered, -⟩ := hreach.remembers (by simp [hput, Stage.hasExited])
  rw [hput] at hlanded
  have hall : w.trace.putReturned = landed := hlanded.trans (List.append_nil landed)
  rcases List.eq_nil_or_concat landed with rfl | ⟨earlier, last, rfl⟩
  · exact Or.inl hremembered
  · rw [List.concat_eq_append, List.getLast?_append, List.getLast?_singleton] at hremembered
    have hcuts : w.trace.cuts.map Cut.fileMeta = w.trace.putReturned ++ w.pipe.line ++ w.handover :=
      hreach.files.conserved
    obtain ⟨later, hline⟩ : ∃ later, w.pipe.line = file.fileMeta :: later := by
      rw [Pipeline.line, hput]
      simp only [List.append_assoc]
      exact ⟨_, rfl⟩
    have hsealed : w.sealedFiles = earlier.map FileMeta.file ++ [last.file] ++
        file.fileMeta.file :: (later ++ w.handover).map FileMeta.file := by
      rw [sealedFiles_eq, show w.files.cuts = w.trace.cuts.map Cut.fileMeta from rfl, hcuts, hall,
        hline]
      simp
    have hconsecutive := hreach.sealed_consecutive
    rw [hsealed, Consecutive, List.append_assoc, List.isChain_append] at hconsecutive
    have hnext := (List.isChain_cons_cons.mp hconsecutive.2.1).1
    exact Or.inr ⟨last.file, by rw [hsealed]; simp, hremembered, hnext⟩

/-- In no run does the tripwire fire: the check lets through every file that reaches it. -/
theorem order_never_trips
    (hreach : ReachableFrom cfg epochMs stagedOffset resumePersisted w) :
    w.health.orderFatal = none ∧ ∀ file, w.pipe.put = .between (.ordering file) →
      checkOrder w.pipe.prev file.fileMeta.file = .ok () := by
  have hchecked (v : Writer β)
      (hv : ReachableFrom cfg epochMs stagedOffset resumePersisted v) (file : Compressed)
      (hput : v.pipe.put = .between (.ordering file)) :
      checkOrder v.pipe.prev file.fileMeta.file = .ok () := by
    rcases hv.ordering_next hput with hprev | ⟨last, hlast, hprev, hnext⟩
    · rw [hprev]
      rfl
    · rw [hprev]
      exact (checkOrder_eq_ok_iff (hv.sealed_seq_le hlast)
        (hv.sealed_seq_le (hv.ordering_sealed hput))).mpr (Or.inl hnext)
  refine ⟨?_, hchecked w hreach⟩
  refine hreach.strengthened (fun w ↦ w.health.orderFatal = none) rfl ?_
  intro before action after hbefore hquiet _ hstep
  rcases put_frame hstep with hsame | hmove
  · exact hsame.orderFatal.trans hquiet
  · cases hmove with
    | trip file detail hput hfenced horder =>
      simp [hchecked before hbefore file hput] at horder
    | _ => exact hquiet

/-- The second file of `sealedTwice` has reached the put stage. -/
def secondChecked : Writer RecordBatch :=
  (run (step sampleConfig) sealedTwice
    [.receive .render, .attempt .render, .renderEnds none, .calibrate, .send .render,
      .receive .gzip, .send .gzip, .receive .put]).getD sealedTwice

theorem order_never_trips_second :
    secondChecked.health.orderFatal = none ∧
      ∀ file, secondChecked.pipe.put = .between (.ordering file) →
        checkOrder secondChecked.pipe.prev file.fileMeta.file = .ok () :=
  order_never_trips
    (reachable_getD_of_run sealedTwice_reachable (by decide +kernel))

end Writer

end RelytIngest
