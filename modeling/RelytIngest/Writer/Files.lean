import RelytIngest.Writer.DenseSeqs
import RelytIngest.Writer.Frames

/-!
# Where the files are

`Files` is a writer seen as a conveyor of sealed files: the files cut so far, the one being handed
to the seal channel, the line of those whose put has not returned, and the files that are put,
recorded and announced, with the place of the put stage. `refines_files` connects the writer to it,
and `Files.Ordered` is its invariant: the files cut are those put followed by the line and the
hand-over, and what is recorded and announced follows the puts in order.
-/

set_option autoImplicit false
set_option relaxedAutoImplicit false

namespace RelytIngest

open Foundations Relation

/-- Where the put stage is with the file whose put returned last. -/
inductive PutPlace
  | ready
  | returned (m : FileMeta)
  | recording (m : FileMeta)
  | announcing (m : FileMeta)
  | landing (m : FileMeta)
  | ended

/-- A writer as a conveyor of files. -/
structure Files where
  cuts : List FileMeta
  handover : List FileMeta
  line : List FileMeta
  sent : List FileMeta
  putReturned : List FileMeta
  recorded : List FileMeta
  notified : List NotifyRequest
  place : PutPlace
  notifierGone : Bool
  stagedOffset : Option Int
  /-- The serial seqs of the files noted as in flight. -/
  inFlight : List Int
  durableSeq : Option Int

/-- The highest end offset after another file was recorded. -/
def raiseOffset (stagedOffset : Option Int) (m : FileMeta) : Option Int :=
  some (match stagedOffset with
    | some prev => max prev m.file.endOffset
    | none => m.file.endOffset)

/-- Every recorded file ends at or below the staged offset. -/
theorem le_foldl_raiseOffset {recorded : List FileMeta} {m : FileMeta} (recovered : Option Int)
    (hm : m ∈ recorded) :
    ∃ offset, recorded.foldl raiseOffset recovered = some offset ∧ m.file.endOffset ≤ offset := by
  have hraised (start : Int) (rest : List FileMeta) :
      ∃ offset, rest.foldl raiseOffset (some start) = some offset ∧ start ≤ offset := by
    induction rest generalizing start with
    | nil => exact ⟨start, rfl, le_rfl⟩
    | cons next rest ih =>
      obtain ⟨offset, hoffset, hle⟩ := ih (max start next.file.endOffset)
      exact ⟨offset, hoffset, (le_max_left _ _).trans hle⟩
  obtain ⟨earlier, later, rfl⟩ := List.append_of_mem hm
  rw [List.foldl_append, List.foldl_cons]
  cases hstart : earlier.foldl raiseOffset recovered with
  | none => exact hraised m.file.endOffset later
  | some prev =>
    obtain ⟨offset, hoffset, hle⟩ := hraised (max prev m.file.endOffset) later
    exact ⟨offset, hoffset, (le_max_right _ _).trans hle⟩

namespace Files

/-- The moves of the conveyor; `request` makes the announcement of a file. -/
inductive Move (request : FileMeta → NotifyRequest) : Files → Files → Prop
  | cut (f : Files) (m : FileMeta) (hfree : f.handover = []) :
      Move request f { f with
        cuts := f.cuts ++ [m]
        handover := [m]
        inFlight := f.inFlight ++ [m.serialSeq] }
  | send (f : Files) (m : FileMeta) (hhandover : f.handover = [m]) :
      Move request f { f with handover := [], line := f.line ++ [m], sent := f.sent ++ [m] }
  | put (f : Files) (m : FileMeta) (rest : List FileMeta) (hplace : f.place = .ready)
      (hline : f.line = m :: rest) :
      Move request f { f with
        line := rest
        putReturned := f.putReturned ++ [m]
        place := .returned m }
  | confirm (f : Files) (m : FileMeta) (hplace : f.place = .returned m) :
      Move request f { f with place := .recording m }
  | record (f : Files) (m : FileMeta) (hplace : f.place = .recording m) :
      Move request f { f with
        recorded := f.recorded ++ [m]
        stagedOffset := raiseOffset f.stagedOffset m
        inFlight := f.inFlight.filter fun serialSeq ↦ decide (serialSeq ≠ m.serialSeq)
        place := .announcing m }
  | announce (f : Files) (m : FileMeta) (hplace : f.place = .announcing m) :
      Move request f { f with
        notified := if f.notifierGone then f.notified else f.notified ++ [request m]
        place := .landing m }
  | land (f : Files) (m : FileMeta) (hplace : f.place = .landing m) :
      Move request f { f with durableSeq := some m.serialSeq, place := .ready }
  | stop (f : Files) (hplace : f.place = .ready ∨ ∃ m, f.place = .returned m) :
      Move request f { f with place := .ended }
  | silence (f : Files) : Move request f { f with notifierGone := true }

/-- The announcements follow the recorded files, all of them while the notifier takes them. -/
def Announced (request : FileMeta → NotifyRequest) (f : Files) (recorded : List FileMeta) : Prop :=
  f.notified <+: recorded.map request ∧
    (f.notifierGone = false → f.notified = recorded.map request)

/-- What is recorded and announced, by the place of the put stage. -/
def PlaceValid (request : FileMeta → NotifyRequest) (f : Files) : Prop :=
  match f.place with
  | .ready => f.recorded = f.putReturned ∧ f.Announced request f.recorded
  | .returned m | .recording m =>
    f.putReturned = f.recorded ++ [m] ∧ f.Announced request f.recorded
  | .announcing m =>
    f.recorded = f.putReturned ∧
      ∃ earlier, f.recorded = earlier ++ [m] ∧ f.Announced request earlier
  | .landing m =>
    f.recorded = f.putReturned ∧ m ∈ f.recorded ∧ f.Announced request f.recorded
  | .ended => f.recorded <+: f.putReturned ∧ f.Announced request f.recorded

/-- The invariant of the conveyor of a writer that recovered `recovered` as its staged offset. -/
structure Ordered (request : FileMeta → NotifyRequest) (recovered : Option Int) (f : Files) :
    Prop where
  conserved : f.cuts = f.putReturned ++ f.line ++ f.handover
  sent_eq : f.cuts = f.sent ++ f.handover
  place : f.PlaceValid request
  staged : f.stagedOffset = f.recorded.foldl raiseOffset recovered
  durable : ∀ d, f.durableSeq = some d → ∃ m ∈ f.recorded, m.serialSeq = d

variable {request : FileMeta → NotifyRequest} {recovered : Option Int} {f f' : Files}

theorem Ordered.move (h : f.Ordered request recovered) (hmove : Move request f f') :
    f'.Ordered request recovered := by
  have hplaceValid := h.place
  cases hmove with
  | cut m hfree =>
    refine ⟨?_, ?_, h.place, h.staged, h.durable⟩
    · simp [h.conserved, hfree]
    · simp [h.sent_eq, hfree]
  | send m hhandover =>
    refine ⟨?_, ?_, h.place, h.staged, h.durable⟩
    · simp [h.conserved, hhandover]
    · simp [h.sent_eq, hhandover]
  | put m rest hplace hline =>
    simp only [PlaceValid, hplace] at hplaceValid
    refine ⟨?_, h.sent_eq, ?_, h.staged, h.durable⟩
    · simp [h.conserved, hline]
    · exact ⟨by rw [hplaceValid.1], hplaceValid.2⟩
  | confirm m hplace =>
    simp only [PlaceValid, hplace] at hplaceValid
    exact ⟨h.conserved, h.sent_eq, hplaceValid, h.staged, h.durable⟩
  | record m hplace =>
    simp only [PlaceValid, hplace] at hplaceValid
    refine ⟨h.conserved, h.sent_eq, ⟨hplaceValid.1.symm, f.recorded, rfl, hplaceValid.2⟩, ?_, ?_⟩
    · simp only [List.foldl_append, List.foldl_cons, List.foldl_nil, ← h.staged]
    · intro d hd
      obtain ⟨landed, hlanded, hseq⟩ := h.durable d hd
      exact ⟨landed, List.mem_append_left _ hlanded, hseq⟩
  | announce m hplace =>
    simp only [PlaceValid, hplace] at hplaceValid
    obtain ⟨hrecorded, earlier, hlast, hleading, hall⟩ := hplaceValid
    have hmem : m ∈ f.recorded := hlast ▸ List.mem_append_right _ (List.mem_singleton_self m)
    refine ⟨h.conserved, h.sent_eq, ⟨hrecorded, hmem, ?_, ?_⟩, h.staged, h.durable⟩
    · rw [hlast, List.map_append]
      cases hgone : f.notifierGone with
      | true => exact hleading.trans (List.prefix_append _ _)
      | false => simp [hall hgone]
    · intro hgone
      have hgone : f.notifierGone = false := hgone
      simp [hlast, hgone, hall hgone]
  | land m hplace =>
    simp only [PlaceValid, hplace] at hplaceValid
    refine ⟨h.conserved, h.sent_eq, ⟨hplaceValid.1, hplaceValid.2.2⟩, h.staged, ?_⟩
    rintro d ⟨rfl⟩
    exact ⟨m, hplaceValid.2.1, rfl⟩
  | stop hplace =>
    refine ⟨h.conserved, h.sent_eq, ?_, h.staged, h.durable⟩
    rcases hplace with hready | ⟨m, hreturned⟩
    · simp only [PlaceValid, hready] at hplaceValid
      exact ⟨hplaceValid.1 ▸ List.prefix_rfl, hplaceValid.2⟩
    · simp only [PlaceValid, hreturned] at hplaceValid
      exact ⟨hplaceValid.1 ▸ List.prefix_append _ _, hplaceValid.2⟩
  | silence =>
    refine ⟨h.conserved, h.sent_eq, ?_, h.staged, h.durable⟩
    have hsilent (recorded : List FileMeta) (hannounced : f.Announced request recorded) :
        ({ f with notifierGone := true } : Files).Announced request recorded :=
      ⟨hannounced.1, by simp⟩
    revert hplaceValid
    unfold PlaceValid
    cases f.place with
    | ready | returned | recording | ended => exact fun hvalid ↦ ⟨hvalid.1, hsilent _ hvalid.2⟩
    | announcing m => exact fun ⟨hrecorded, earlier, hlast, hvalid⟩ ↦
        ⟨hrecorded, earlier, hlast, hsilent _ hvalid⟩
    | landing m => exact fun hvalid ↦ ⟨hvalid.1, hvalid.2.1, hsilent _ hvalid.2.2⟩

/-- The recorded files are a prefix of those put, and the announcements a prefix of theirs. -/
theorem Ordered.prefixes (h : f.Ordered request recovered) :
    f.recorded <+: f.putReturned ∧ f.notified <+: f.recorded.map request := by
  have hplaceValid := h.place
  unfold PlaceValid at hplaceValid
  cases hplace : f.place with
  | ready =>
    rw [hplace] at hplaceValid
    exact ⟨hplaceValid.1 ▸ List.prefix_rfl, hplaceValid.2.1⟩
  | returned m | recording m =>
    rw [hplace] at hplaceValid
    exact ⟨hplaceValid.1 ▸ List.prefix_append _ _, hplaceValid.2.1⟩
  | announcing m =>
    rw [hplace] at hplaceValid
    obtain ⟨hrecorded, earlier, hlast, hannounced, -⟩ := hplaceValid
    refine ⟨hrecorded ▸ List.prefix_rfl, hannounced.trans ?_⟩
    rw [hlast, List.map_append]
    exact List.prefix_append _ _
  | landing m =>
    rw [hplace] at hplaceValid
    exact ⟨hplaceValid.1 ▸ List.prefix_rfl, hplaceValid.2.2.1⟩
  | ended =>
    rw [hplace] at hplaceValid
    exact ⟨hplaceValid.1, hplaceValid.2.1⟩

end Files

/-! ### The writer makes moves of the conveyor -/

/-- The place a state of the put stage stands for. -/
def PutPlace.of : Stage Compressed PutPhase → PutPlace
  | .between (.returned m) => .returned m
  | .between (.recording m) => .recording m
  | .between (.announcing m) => .announcing m
  | .between (.landing m) => .landing m
  | .exited _ => .ended
  | _ => .ready

namespace Writer

variable {β : Type} {cfg : WriterConfig β} {w w' : Writer β}

/-- The file that was cut and is not in the seal channel yet. -/
def handover (w : Writer β) : List FileMeta :=
  match w.lock with
  | some ⟨_, .sending sealed⟩ => [sealed.fileMeta]
  | _ => []

/-- The conveyor of a writer. -/
def files (w : Writer β) : Files where
  cuts := w.trace.cuts.map Cut.fileMeta
  handover := w.handover
  line := w.pipe.line
  sent := w.trace.sent
  putReturned := w.trace.putReturned
  recorded := w.trace.recorded
  notified := w.trace.notified
  place := .of w.pipe.put
  notifierGone := w.health.notifierGone
  stagedOffset := w.st.stagedOffset
  inFlight := w.st.inFlight.map Prod.fst
  durableSeq := w.progress.durableSeq

/-- A step that leaves the pipeline and the lock alone moves no file. -/
theorem SamePipeline.files (h : SamePipeline w w') (hlock : w'.lock = w.lock) :
    w'.files = w.files := by
  simp only [Writer.files, handover, hlock, h.pipe, h.progress, h.health, h.staged, h.inFlight,
    h.cuts, h.sent, h.putReturned, h.recorded, h.notified]

@[simp] theorem files_setWait (wait : SealWait) (sealer : Sealer) :
    (w.setWait wait sealer).files = w.files :=
  (SamePipeline.setWait wait sealer).files (lock_setWait wait sealer)

@[simp] theorem files_sealReturns (result : Except Error (Option Int)) (sealer : Sealer) :
    (w.sealReturns result sealer).files = w.files :=
  (SamePipeline.sealReturns result sealer).files (lock_sealReturns result sealer)

@[simp] theorem files_finish (holder : Sealer) (result : Except Error (Option Int)) :
    (w.finish holder result).files = { w.files with handover := [] } := by
  rw [finish, files_sealReturns]
  rfl

/-- Taking the seal lock or moving on under it, short of a cut, hands over no file. -/
theorem files_withLock {lock : Option (Holding β)} (hbefore : w.handover = [])
    (hafter : ({ w with lock := lock } : Writer β).handover = []) :
    ({ w with lock := lock } : Writer β).files = w.files := by
  simp only [files, hbefore, hafter]

theorem files_grant (sealer : Sealer) (hfree : w.lock = none) :
    (w.grant sealer).files = w.files := by
  have hwait := files_setWait (w := w) .holding sealer
  have hhandover : (w.setWait .holding sealer).handover = [] := by
    have hsame : (w.setWait .holding sealer).handover = w.handover := congrArg Files.handover hwait
    rw [hsame, handover, hfree]
  refine (files_withLock hhandover ?_).trans hwait
  by_cases hticker : sealer = .ticker <;> simp [handover, hticker]

/-- A hand-over that ends without a file leaves the conveyor as it is. -/
theorem files_finish_free (holder : Sealer) (result : Except Error (Option Int))
    (hfree : w.handover = []) : (w.finish holder result).files = w.files := by
  rw [files_finish]
  exact congrArg (fun handover ↦ { w.files with handover := handover }) hfree.symm

theorem files_cut (holder : Sealer) (now : Nat) (hfree : w.handover = []) :
    ReflGen (Files.Move (notifyRequest cfg)) w.files (w.cut cfg holder now).files := by
  unfold cut
  split
  · next err st hseal =>
    obtain ⟨rfl, -⟩ := WriterState.sealBuffer_error hseal
    have hrolled : ({ w with st := w.st.rolled } : Writer β).files = w.files := by
      simp only [files, WriterState.rolled_stagedOffset, WriterState.rolled_inFlight]
      rfl
    rw [files_finish_free (w := { w with st := w.st.rolled }) holder (.error err) hfree, hrolled]
  · next st hseal =>
    obtain ⟨-, rfl⟩ := WriterState.sealBuffer_none hseal
    rw [files_finish_free (w := { w with st := w.st }) holder (.ok none) hfree]
  · next sealed st hseal =>
    obtain ⟨first, rest, -, -, -, rfl⟩ := WriterState.sealBuffer_some hseal
    have hcut : Files.Move (notifyRequest cfg) w.files _ := .cut w.files sealed.fileMeta hfree
    refine .single ?_
    convert hcut using 1
    simp [files, setPhase, handover, WriterState.sealedState, Cut.fileMeta]

theorem files_quiet (hsame : w'.files = w.files) :
    ReflGen (Files.Move (notifyRequest cfg)) w.files w'.files :=
  hsame ▸ .refl

theorem files_handOver {now : Nat} (hstep : w.handOver cfg now = some w') :
    ReflGen (Files.Move (notifyRequest cfg)) w.files w'.files := by
  have hfree {holder : Sealer} {phase : SealPhase β} (hlock : w.lock = some ⟨holder, phase⟩)
      (hphase : ∀ sealed, phase ≠ .sending sealed) : w.handover = [] := by
    rw [handover, hlock]
    cases phase with
    | sending sealed => exact absurd rfl (hphase sealed)
    | _ => rfl
  -- a phase other than `sending` has handed nothing over, and the next one may be any
  have hquiet {holder : Sealer} {phase next : SealPhase β} (hlock : w.lock = some ⟨holder, phase⟩)
      (hphase : ∀ sealed, phase ≠ .sending sealed) (hnext : ∀ sealed, next ≠ .sending sealed) :
      ReflGen (Files.Move (notifyRequest cfg)) w.files (w.setPhase holder next).files := by
    have hafter : (w.setPhase holder next).handover = [] := by
      rw [handover, setPhase]
      cases next with
      | sending sealed => exact absurd rfl (hnext sealed)
      | _ => rfl
    exact files_quiet (files_withLock (hfree hlock hphase) hafter)
  have hfinish {holder : Sealer} {phase : SealPhase β} {result : Except Error (Option Int)}
      (hlock : w.lock = some ⟨holder, phase⟩) (hphase : ∀ sealed, phase ≠ .sending sealed) :
      ReflGen (Files.Move (notifyRequest cfg)) w.files (w.finish holder result).files :=
    files_quiet (files_finish_free _ _ (hfree hlock hphase))
  cases holder_cases hstep with
  | reserve holder hlock | await holder hlock | lose holder hlock | proceed holder hlock =>
    exact hquiet hlock (by simp) (by simp)
  | permit holder phase next hlock hphase hnext =>
    rcases hphase with rfl | rfl <;> rcases hnext with rfl | rfl <;>
      exact hquiet hlock (by simp) (by simp)
  | close holder phase hlock hphase =>
    rcases hphase with rfl | rfl <;> exact hquiet hlock (by simp) (by simp)
  | skip holder hlock | yield hlock => exact hfinish hlock (by simp)
  | fail holder phase err hlock hphase =>
    rcases hphase with rfl | rfl <;> exact hfinish hlock (by simp)
  | report holder hlock =>
    have hgone : ({ w with progress := w.progress.pipelineGone.2 } : Writer β).files = w.files := by
      simp only [files, Progress.pipelineGone_durableSeq]
      rfl
    rw [files_finish_free (w := { w with progress := w.progress.pipelineGone.2 }) _ _
      (hfree hlock (by simp)), hgone]
  | cut holder hlock => exact files_cut holder now (hfree hlock (by simp))
  | send holder sealed hlock =>
    have hsend : Files.Move (notifyRequest cfg) w.files _ :=
      .send w.files sealed.fileMeta (by simp [files, handover, hlock])
    refine .single ?_
    convert hsend using 1
    rw [files_finish]
    simp [files, Pipeline.line]

/-- What a stage may change without a move of the conveyor. -/
theorem files_congr (htrace : w'.trace = w.trace) (hlock : w'.lock = w.lock)
    (hline : w'.pipe.line = w.pipe.line) (hplace : PutPlace.of w'.pipe.put = .of w.pipe.put)
    (hdurable : w'.progress.durableSeq = w.progress.durableSeq)
    (hstaged : w'.st.stagedOffset = w.st.stagedOffset) (hflight : w'.st.inFlight = w.st.inFlight)
    (hgone : w'.health.notifierGone = w.health.notifierGone) : w'.files = w.files := by
  simp only [files, handover, htrace, hlock, hline, hplace, hdurable, hstaged, hflight, hgone]

/-- The put stage ends, with the file in hand still in the line. -/
theorem files_stop
    (hplace : PutPlace.of w.pipe.put = .ready ∨ ∃ m, PutPlace.of w.pipe.put = .returned m)
    (hended : PutPlace.of w'.pipe.put = .ended) (htrace : w'.trace = w.trace)
    (hlock : w'.lock = w.lock) (hline : w'.pipe.line = w.pipe.line)
    (hdurable : w'.progress.durableSeq = w.progress.durableSeq)
    (hstaged : w'.st.stagedOffset = w.st.stagedOffset) (hflight : w'.st.inFlight = w.st.inFlight)
    (hgone : w'.health.notifierGone = w.health.notifierGone) :
    ReflGen (Files.Move (notifyRequest cfg)) w.files w'.files := by
  have hstop : Files.Move (notifyRequest cfg) w.files _ := .stop w.files hplace
  refine .single ?_
  convert hstop using 1
  simp only [files, handover, hended, htrace, hlock, hline, hdurable, hstaged, hflight, hgone]

theorem fencedExit_durableSeq {progress : Progress} (hfenced : w.fencedExit = some progress) :
    progress.durableSeq = w.progress.durableSeq := by
  obtain ⟨reason, -, rfl⟩ := Option.map_eq_some_iff.mp hfenced
  exact Progress.publishTerminal_durableSeq ..

theorem passed_durableSeq (failures : Nat) (m : FileMeta) :
    (w.passed failures m).durableSeq = w.progress.durableSeq := by
  unfold passed
  split
  · exact Progress.clearFailure_durableSeq ..
  · rfl

/-- The render stage moves no file on. -/
theorem files_render {action : Action β} (hmove : RenderStep cfg w action w') :
    w'.files = w.files := by
  cases hmove with
  | take file rest hrender hqueue =>
    refine files_congr rfl rfl ?_ rfl rfl rfl rfl rfl
    simp [Pipeline.line, Stage.inHand, hrender, hqueue]
  | drop file failures progress hrender hfenced =>
    refine files_congr rfl rfl ?_ rfl (fencedExit_durableSeq hfenced) rfl rfl rfl
    simp [setRender, Pipeline.line, Stage.inHand, hrender]
  | run file failures hrender =>
    refine files_congr rfl rfl ?_ rfl rfl rfl rfl rfl
    simp [setRender, Pipeline.line, Stage.inHand, hrender]
  | pass joinError file failures out hrender hmeta =>
    refine files_congr rfl rfl ?_ rfl (passed_durableSeq _ _) rfl rfl rfl
    split_ifs <;> simp [setRender, Pipeline.line, Stage.inHand, RenderPhase.files, hrender, hmeta]
  | fail joinError file failures err hrender =>
    refine files_congr rfl rfl ?_ rfl (Progress.reportFailure_durableSeq ..) rfl rfl rfl
    simp only [setRender, Pipeline.line, hrender, Stage.inHand_failed]
    rfl
  | giveUp file err hrender =>
    refine files_congr rfl rfl ?_ rfl (Progress.publishTerminal_durableSeq ..) rfl rfl rfl
    simp [setRender, Pipeline.line, Stage.inHand, hrender]
  | calibrate out hrender | lose out hrender =>
    refine files_congr rfl rfl ?_ rfl rfl rfl rfl rfl
    simp [setRender, Pipeline.line, Stage.inHand, RenderPhase.files, hrender]
  | send out hrender hgzip hroom =>
    refine files_congr rfl rfl ?_ rfl rfl rfl rfl rfl
    simp [Pipeline.line, Stage.inHand, RenderPhase.files, hrender, hroom]

/-- The gzip stage moves no file on. -/
theorem files_gzip {action : Action β} (hmove : GzipStep cfg w action w') :
    w'.files = w.files := by
  cases hmove with
  | take file rest hgzip hqueue | skip file rest hgzip hqueue =>
    refine files_congr rfl rfl ?_ rfl rfl rfl rfl rfl
    simp [Pipeline.line, Stage.inHand, hgzip, hqueue]
  | close hgzip | run file failures hgzip | lose out hgzip =>
    refine files_congr rfl rfl ?_ rfl rfl rfl rfl rfl
    simp [setGzip, Pipeline.line, Stage.inHand, hgzip]
  | drop file failures progress hgzip hfenced =>
    refine files_congr rfl rfl ?_ rfl (fencedExit_durableSeq hfenced) rfl rfl rfl
    simp [setGzip, Pipeline.line, Stage.inHand, hgzip]
  | pass joinError file failures payload hgzip =>
    refine files_congr rfl rfl ?_ rfl (passed_durableSeq _ _) rfl rfl rfl
    simp [setGzip, Pipeline.line, Stage.inHand, hgzip]
  | fail joinError file failures err hgzip =>
    refine files_congr rfl rfl ?_ rfl (Progress.reportFailure_durableSeq ..) rfl rfl rfl
    simp only [setGzip, Pipeline.line, hgzip, Stage.inHand_failed]
    rfl
  | giveUp file err hgzip =>
    refine files_congr rfl rfl ?_ rfl (Progress.publishTerminal_durableSeq ..) rfl rfl rfl
    simp [setGzip, Pipeline.line, Stage.inHand, hgzip]
  | send out hgzip hput hroom =>
    refine files_congr rfl rfl ?_ rfl rfl rfl rfl rfl
    simp [Pipeline.line, Stage.inHand, hgzip, hroom]

/-- The put stage makes one move of the conveyor, or none. -/
theorem files_put {action : Action β} (hmove : PutStep cfg w action w') :
    ReflGen (Files.Move (notifyRequest cfg)) w.files w'.files := by
  cases hmove with
  | take file rest hput hqueue =>
    refine files_quiet (files_congr rfl rfl ?_ (by rw [hput]; rfl) rfl rfl rfl rfl)
    simp [Pipeline.line, Stage.inHand, PutPhase.files, hput, hqueue]
  | close hput =>
    refine files_stop (Or.inl (by rw [hput]; rfl)) rfl rfl rfl ?_ rfl rfl rfl rfl
    simp [setPut, Pipeline.line, Stage.inHand, hput]
  | dropUnordered file progress hput hfenced =>
    refine files_stop (Or.inl (by rw [hput]; rfl)) rfl rfl rfl ?_ (fencedExit_durableSeq hfenced)
      rfl rfl rfl
    simp [setPut, Pipeline.line, Stage.inHand, PutPhase.files, hput]
  | order file hput =>
    refine files_quiet (files_congr rfl rfl ?_ (by rw [hput]; rfl) rfl rfl rfl rfl)
    simp [setPut, Pipeline.line, Stage.inHand, PutPhase.files, hput]
  | trip file detail hput =>
    refine files_stop (Or.inl (by rw [hput]; rfl)) rfl rfl rfl ?_
      (Progress.publishTerminal_durableSeq ..) rfl rfl rfl
    simp [setPut, Pipeline.line, Stage.inHand, PutPhase.files, hput]
  | drop file failures progress hput hfenced =>
    refine files_stop (Or.inl (by rw [hput]; rfl)) rfl rfl rfl ?_ (fencedExit_durableSeq hfenced)
      rfl rfl rfl
    simp [setPut, Pipeline.line, Stage.inHand, hput]
  | run file failures hput =>
    refine files_quiet (files_congr rfl rfl ?_ (by rw [hput]; rfl) rfl rfl rfl rfl)
    simp [setPut, Pipeline.line, Stage.inHand, hput]
  | pass trial file failures hput =>
    have hline : w.pipe.line = file.fileMeta ::
        ({ w.pipe with put := .between (.returned file.fileMeta) } : Pipeline β).line := by
      simp [Pipeline.line, Stage.inHand, PutPhase.files, hput]
    have hreturn : Files.Move (notifyRequest cfg) w.files _ :=
      .put w.files file.fileMeta _ (by simp [files, hput, PutPlace.of]) hline
    refine .single ?_
    convert hreturn using 1
    simp only [files, handover, setPut, passed_durableSeq, PutPlace.of]
  | fail trial file failures err hput =>
    refine files_quiet
      (files_congr rfl rfl ?_ ?_ (Progress.reportFailure_durableSeq ..) rfl rfl rfl)
    · simp only [setPut, Pipeline.line, hput, Stage.inHand_failed]
      rfl
    · rw [hput, setPut, Stage.failed]
      split <;> rfl
  | giveUp file err hput =>
    refine files_stop (Or.inl (by rw [hput]; rfl)) rfl rfl rfl ?_
      (Progress.publishTerminal_durableSeq ..) rfl rfl rfl
    simp [setPut, Pipeline.line, Stage.inHand, hput]
  | dropReturned m progress hput hfenced =>
    refine files_stop (Or.inr ⟨m, by rw [hput]; rfl⟩) rfl rfl rfl ?_
      (fencedExit_durableSeq hfenced) rfl rfl rfl
    simp [setPut, Pipeline.line, Stage.inHand, PutPhase.files, hput]
  | confirm m hput =>
    have hconfirm : Files.Move (notifyRequest cfg) w.files _ :=
      .confirm w.files m (by simp [files, hput, PutPlace.of])
    refine .single ?_
    convert hconfirm using 1
    simp [files, handover, setPut, Pipeline.line, Stage.inHand, PutPhase.files, hput, PutPlace.of]
  | record m hput =>
    have hrecord : Files.Move (notifyRequest cfg) w.files _ :=
      .record w.files m (by simp [files, hput, PutPlace.of])
    have hflight : (w.st.recordDurable m).inFlight.map Prod.fst =
        (w.st.inFlight.map Prod.fst).filter fun serialSeq ↦ decide (serialSeq ≠ m.serialSeq) := by
      rw [List.filter_map]
      rfl
    refine .single ?_
    convert hrecord using 1
    simp only [files, handover, setPut, Pipeline.line, Stage.inHand, PutPhase.files, hput,
      PutPlace.of, hflight]
    rfl
  | announce m hput =>
    have hannounce : Files.Move (notifyRequest cfg) w.files _ :=
      .announce w.files m (by simp [files, hput, PutPlace.of])
    refine .single ?_
    convert hannounce using 1
    simp [files, handover, setPut, Pipeline.line, Stage.inHand, PutPhase.files, hput, PutPlace.of]
  | land m hput =>
    have hland : Files.Move (notifyRequest cfg) w.files _ :=
      .land w.files m (by simp [files, hput, PutPlace.of])
    refine .single ?_
    convert hland using 1
    simp [files, handover, Pipeline.line, Stage.inHand, PutPhase.files, hput, PutPlace.of]

theorem files_lockStep {action : Action β} (hstep : w.step cfg action = some w')
    (hlock : action matches .tryLock _ _ | .acquire _ | .stall _) : w'.files = w.files := by
  cases sealer_cases hstep hlock with
  | skip | giveUp => exact files_sealReturns _ _
  | park => exact files_setWait _ _
  | take sealer wait hwait hwants hfree => exact files_grant sealer hfree
  | letGo sealer err hstalled hroom =>
    have hfree : w.handover = [] := by
      unfold handover
      unfold awaitsRoom at hroom
      split
      · next heq => simp [heq] at hroom
      · rfl
    exact files_finish_free sealer _ hfree

/-- A step makes one move of the conveyor, or none. -/
theorem files_step {action : Action β} (hstep : w.step cfg action = some w') :
    ReflGen (Files.Move (notifyRequest cfg)) w.files w'.files := by
  cases action with
  | appendCall | appendPush | appendUnbuffer | flushCall | flushLookup | flushAwait | flushRead
  | tick | tickerCheck | persistBegin | persistRecheck | persistWrite =>
    obtain ⟨hsame, hlock⟩ := caller_frame hstep rfl
    exact files_quiet (hsame.files hlock)
  | tryLock | acquire | stall => exact files_quiet (files_lockStep hstep rfl)
  | handOver => exact files_handOver hstep
  | receive | attempt | renderEnds | gzipEnds | putEnds | giveUp | calibrate | send | order
  | confirm | record | announce | land =>
    rcases stage_cases hstep rfl with hmove | hmove | hmove
    · exact files_quiet (files_render hmove)
    · exact files_quiet (files_gzip hmove)
    · exact files_put hmove
  | fence | serialViolation => exact files_quiet (Option.some.inj hstep ▸ rfl)
  | notifierStops =>
    obtain rfl := Option.some.inj hstep
    exact .single (.silence w.files)

/-- The writer refines the conveyor. -/
theorem refines_files :
    Refines (step cfg) (fun _ _ ↦ True) files (Files.Move (notifyRequest cfg)) :=
  fun _ _ _ _ hstep ↦ (files_step hstep).to_reflTransGen

/-! ### The conveyor of a reachable writer -/

theorem files_new (epochMs : Nat) (stagedOffset resumePersisted : Option Int) :
    (new epochMs stagedOffset resumePersisted : Writer β).files.Ordered (notifyRequest cfg)
      stagedOffset where
  conserved := rfl
  sent_eq := rfl
  place := ⟨rfl, List.prefix_rfl, fun _ ↦ rfl⟩
  staged := rfl
  durable := by simp [files, new, Progress.initial]

/-- The conveyor of a reachable writer is in order. -/
theorem ReachableFrom.files {epochMs : Nat} {stagedOffset resumePersisted : Option Int}
    (hreach : ReachableFrom cfg epochMs stagedOffset resumePersisted w) :
    w.files.Ordered (notifyRequest cfg) stagedOffset :=
  refines_files.invariant (files_new ..) (fun _ _ h hmove ↦ h.move hmove) hreach

/-- The sealed files whose put returned, and those after them. -/
theorem ReachableFrom.landed {epochMs : Nat} {stagedOffset resumePersisted : Option Int}
    (hreach : ReachableFrom cfg epochMs stagedOffset resumePersisted w) :
    ∃ landed later, w.trace.cuts = landed ++ later ∧
      w.trace.putReturned = landed.map Cut.fileMeta := by
  have hsplit : w.trace.cuts.map Cut.fileMeta = w.trace.putReturned ++ w.pipe.line ++ w.handover :=
    hreach.files.conserved
  rw [List.append_assoc] at hsplit
  obtain ⟨landed, later, hcuts, hlanded, -⟩ := List.map_eq_append_iff.mp hsplit
  exact ⟨landed, later, hcuts, hlanded.symm⟩

/-! ### The sealed files -/

theorem sealedFiles_eq : w.sealedFiles = w.files.cuts.map FileMeta.file := by
  simp only [sealedFiles, files, List.map_map]
  rfl

/-- A step may seal a file or return from a put, and takes nothing back. -/
theorem cuts_grow {action : Action β} (hstep : w.step cfg action = some w') :
    w.files.cuts <+: w'.files.cuts ∧ w.files.putReturned <+: w'.files.putReturned := by
  rcases (reflGen_iff ..).mp (files_step hstep) with hsame | hmove
  · exact hsame ▸ ⟨List.prefix_rfl, List.prefix_rfl⟩
  · generalize w'.files = after at hmove
    cases hmove with
    | cut => exact ⟨List.prefix_append _ _, List.prefix_rfl⟩
    | put => exact ⟨List.prefix_rfl, List.prefix_append _ _⟩
    | send | confirm | record | announce | land | stop | silence =>
      exact ⟨List.prefix_rfl, List.prefix_rfl⟩

theorem files_grow {action : Action β} (hstep : w.step cfg action = some w') :
    w.sealedFiles <+: w'.sealedFiles ∧ w.trace.putReturned <+: w'.trace.putReturned := by
  obtain ⟨hcuts, hput⟩ := cuts_grow hstep
  rw [sealedFiles_eq, sealedFiles_eq]
  exact ⟨hcuts.map _, hput⟩

end Writer

end RelytIngest
