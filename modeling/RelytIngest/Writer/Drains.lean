import RelytIngest.Writer.FlushDurable
import RelytIngest.Writer.NeverStops

/-!
# A running writer drains

Every file that was cut has so many steps of the stages before it lands (`Writer.work`). As long as
one is on its way, some stage of a running writer has a step in which nothing fails, and the step
lowers this number (`advances`). So from every state that a writer of an opened table reaches, the
stages can make durable what was cut, and every flush that waits for it then goes on (`drains`).
-/

set_option autoImplicit false
set_option relaxedAutoImplicit false

namespace RelytIngest

open Foundations Relation

/-! ### The files that flushes wait for -/

namespace Writer

section Awaiting

variable {β : Type} {cfg : WriterConfig β} {w w' : Writer β} {id : Nat} {call : FlushCall β}
  {target : Int}

theorem awaiting_setFlush {other : Nat} {task : FlushTask β}
    (htask : ∀ later target, task ≠ .awaiting later target)
    (h : (w.setFlush other task).flushes id = .awaiting call target) :
    w.flushes id = .awaiting call target := by
  by_cases hid : id = other
  · rw [hid, flushes_setFlush_self] at h
    exact absurd h (htask _ _)
  · rwa [flushes_setFlush_of_ne hid] at h

theorem awaiting_setWait (wait : SealWait) (sealer : Sealer)
    (h : (w.setWait wait sealer).flushes id = .awaiting call target) :
    w.flushes id = .awaiting call target := by
  cases sealer with
  | append =>
    simp only [setWait] at h
    split at h <;> exact h
  | flush other =>
    simp only [setWait] at h
    split at h
    · exact awaiting_setFlush (by simp) h
    · exact h
  | ticker => exact h

theorem awaiting_setPersist {next : Option PersistPhase} {persister : Persister}
    (h : (w.setPersist next persister).flushes id = .awaiting call target) :
    w.flushes id = .awaiting call target := by
  cases persister with
  | ticker => exact h
  | close other =>
    simp only [setPersist] at h
    split at h
    · exact awaiting_setFlush (by cases next <;> simp) h
    · exact h

/-- A sealer that returns starts to wait for the file it sent, if it is a flush. -/
theorem awaiting_sealReturns {result : Except Error (Option Int)} {sealer : Sealer}
    (h : (w.sealReturns result sealer).flushes id = .awaiting call target) :
    w.flushes id = .awaiting call target ∨ result = .ok (some target) := by
  cases sealer with
  | append =>
    rw [flushes_sealReturns_append] at h
    exact Or.inl h
  | flush other =>
    simp only [sealReturns] at h
    split at h
    · by_cases hid : id = other
      · rw [hid, flushes_setFlush_self] at h
        split at h
        · obtain ⟨-, rfl⟩ := FlushTask.awaiting.inj h
          exact Or.inr rfl
        · simp at h
        · simp at h
      · rw [flushes_setFlush_of_ne hid] at h
        exact Or.inl h
    · exact Or.inl h
  | ticker => exact Or.inl h

theorem awaiting_finish {result : Except Error (Option Int)} {holder : Sealer}
    (hresult : ∀ seq, result ≠ .ok (some seq))
    (h : (w.finish holder result).flushes id = .awaiting call target) :
    w.flushes id = .awaiting call target :=
  (awaiting_sealReturns (w := { w with lock := none }) h).resolve_right (hresult target)

/-- A flush waits for the last file sealed, or for the one it sent. -/
theorem awaiting_step {action : Action β} (hstep : w.step cfg action = some w')
    (h : w'.flushes id = .awaiting call target) :
    w.flushes id = .awaiting call target ∨ w.st.lastSealedSeq = some target ∨
      ∃ holder sealed, w.lock = some ⟨holder, .sending sealed⟩ ∧
        sealed.fileMeta.serialSeq = target := by
  have hdurable (first later : FlushCall β) (seq : Int) :
      FlushCall.durable first ≠ .awaiting later seq := by
    unfold FlushCall.durable
    split_ifs <;> simp
  cases action with
  | appendCall | appendPush | appendUnbuffer =>
    exact Or.inl ((appends_frame hstep rfl).2.2.1 ▸ h)
  | tick | tickerCheck =>
    obtain ⟨task, rfl, -⟩ := ticker_cases hstep rfl
    exact Or.inl h
  | persistBegin | persistRecheck | persistWrite =>
    obtain ⟨resume, next, persister, rfl⟩ := persist_cases hstep rfl
    exact Or.inl (awaiting_setPersist (w := { w with
      st := { w.st with resumePersisted := resume } }) h)
  | flushCall other closing =>
    simp only [step, flushCall] at hstep
    split at hstep
    · obtain rfl := Option.some.inj hstep
      exact Or.inl (awaiting_setFlush (by intros; split <;> simp) h)
    · simp at hstep
  | flushLookup other =>
    simp only [step, flushLookup] at hstep
    split at hstep
    · obtain rfl := Option.some.inj hstep
      cases hlast : w.st.lastSealedSeq with
      | none =>
        rw [hlast] at h
        exact Or.inl (awaiting_setFlush (hdurable _) h)
      | some last =>
        rw [hlast] at h
        by_cases hid : id = other
        · rw [hid, flushes_setFlush_self] at h
          obtain ⟨-, rfl⟩ := FlushTask.awaiting.inj h
          exact Or.inr (Or.inl rfl)
        · rw [flushes_setFlush_of_ne hid] at h
          exact Or.inl h
    · simp at hstep
  | flushAwait other =>
    simp only [step, flushAwait] at hstep
    split at hstep
    · split_ifs at hstep
      · obtain rfl := Option.some.inj hstep
        exact Or.inl (awaiting_setFlush (hdurable _) h)
      · obtain ⟨err, -, rfl⟩ := Option.map_eq_some_iff.mp hstep
        exact Or.inl (awaiting_setFlush (by simp) h)
    · simp at hstep
  | flushRead other =>
    simp only [step, flushRead] at hstep
    split at hstep
    · obtain rfl := Option.some.inj hstep
      exact Or.inl (awaiting_setFlush (by simp) h)
    · simp at hstep
  | tryLock | acquire | stall =>
    cases sealer_cases hstep rfl with
    | skip | giveUp => exact Or.inl ((awaiting_sealReturns h).resolve_right (by simp))
    | park => exact Or.inl (awaiting_setWait _ _ h)
    | take sealer => exact Or.inl (awaiting_setWait .holding sealer h)
    | letGo => exact Or.inl (awaiting_finish (by simp) h)
  | handOver =>
    cases holder_cases hstep with
    | reserve | await | permit | close | lose | proceed => exact Or.inl h
    | skip | yield | fail => exact Or.inl (awaiting_finish (by simp) h)
    | report =>
      exact Or.inl (awaiting_finish (w := { w with progress := w.progress.pipelineGone.2 })
        (by simp) h)
    | cut holder hlock =>
      unfold cut at h
      split at h
      · next st _ => exact Or.inl (awaiting_finish (w := { w with st := st }) (by simp) h)
      · next st _ => exact Or.inl (awaiting_finish (w := { w with st := st }) (by simp) h)
      · exact Or.inl h
    | send holder sealed hlock =>
      rcases awaiting_sealReturns (w := { w with
        lock := none
        pipe := { w.pipe with queue := w.pipe.queue ++ [sealed] }
        trace := { w.trace with sent := w.trace.sent ++ [sealed.fileMeta] } }) h with hold | hsent
      · exact Or.inl hold
      · exact Or.inr (Or.inr ⟨holder, sealed, hlock,
          Option.some.inj (Except.ok.inj hsent)⟩)
  | receive | attempt | renderEnds | gzipEnds | putEnds | giveUp | calibrate | send | order
  | confirm | record | announce | land =>
    rcases stage_cases hstep rfl with hmove | hmove | hmove <;>
      exact Or.inl (by cases hmove <;> exact h)
  | fence | serialViolation | notifierStops =>
    obtain rfl := Option.some.inj hstep
    exact Or.inl h

variable {epochMs : Nat} {stagedOffset resumePersisted : Option Int}

/-- What a flush waits for is a file that was cut. -/
theorem ReachableFrom.awaiting_cut
    (hreach : ReachableFrom cfg epochMs stagedOffset resumePersisted w)
    (h : w.flushes id = .awaiting call target) :
    ∃ cut ∈ w.trace.cuts, cut.fileMeta.serialSeq = target := by
  refine hreach.strengthened (fun w ↦ ∀ id call target, w.flushes id = .awaiting call target →
    ∃ cut ∈ w.trace.cuts, cut.fileMeta.serialSeq = target) (by simp [new]) ?_ id call target h
  intro before action after hbefore hawaited _ hstep id call target h
  have hmore := (step_grows hstep).cuts
  rcases awaiting_step hstep h with hold | hlast | ⟨holder, sealed, hlock, rfl⟩
  · obtain ⟨cut, hcut, hseq⟩ := hawaited id call target hold
    exact ⟨cut, hmore hcut, hseq⟩
  · have hsealed : before.st.lastSealedSeq =
        before.trace.cuts.getLast?.map fun c ↦ c.fileMeta.serialSeq :=
      (ReachableFrom.rows hbefore).2.lastSealed
    obtain ⟨cut, hcut, hseq⟩ := Option.map_eq_some_iff.mp (hsealed.symm.trans hlast)
    exact ⟨cut, hmore (List.mem_of_getLast? hcut), hseq⟩
  · obtain ⟨cut, hcut, rfl⟩ := (ReachableFrom.carries hbefore).sending holder sealed hlock
    exact ⟨cut, hmore hcut, rfl⟩

end Awaiting

end Writer

/-! ### The steps that a file has before it -/

/-- What the file in the hands of a stage has before it, by where the stage is with it. -/
def Stage.work {ι φ : Type} (attempt running : Nat) (phaseWork : φ → Nat) : Stage ι φ → Nat
  | .receiving | .rejected _ _ | .exited _ => 0
  | .attempt _ _ => attempt
  | .running _ _ => running
  | .between phase => phaseWork phase

def RenderPhase.work : RenderPhase → Nat
  | .calibrating _ => 14
  | .sending _ => 13

def PutPhase.work : PutPhase → Nat
  | .ordering _ => 7
  | .returned _ => 4
  | .recording _ => 3
  | .announcing _ => 2
  | .landing _ => 1

namespace Writer

section Work

variable {β : Type} {cfg : WriterConfig β} {w : Writer β}

/-- The steps of the stages until everything that was cut has landed. -/
def work (w : Writer β) : Nat :=
  18 * w.handover.length + 17 * w.pipe.queue.length + w.pipe.render.work 16 15 RenderPhase.work +
    12 * w.pipe.toGzip.length + w.pipe.gzip.work 11 10 (fun _ ↦ 9) + 8 * w.pipe.toPut.length +
    w.pipe.put.work 6 5 PutPhase.work

/-- Steps of the stages and of the hand-over in which nothing fails. -/
def smooth : Action β → Bool
  | .receive _ | .attempt _ | .calibrate | .send _ | .order | .confirm | .record | .announce | .land
  | .handOver _ => true
  | .renderEnds joinError | .gzipEnds joinError => joinError.isNone
  | .putEnds trial => trial.result.isOk
  | _ => false

theorem undisturbed_of_smooth {action : Action β} (h : smooth action = true) :
    undisturbed action = true := by
  cases action with
  | putEnds trial =>
    simp only [smooth, undisturbed, retriable, isFence] at h ⊢
    cases hresult : trial.result with
    | ok => rfl
    | error err => simp [hresult, Except.isOk, Except.toBool] at h
  | _ => first | rfl | simp [smooth] at h

/-- A smooth step lowers the work. -/
def Advances (cfg : WriterConfig β) (w : Writer β) : Prop :=
  ∃ action w', smooth action = true ∧ w.step cfg action = some w' ∧ w'.work < w.work

theorem fencedExit_of_running (h : w.watch.Running) : w.fencedExit = none := by
  rw [fencedExit, isSome_eq_false h.fenced]
  rfl

theorem not_exited {ι φ : Type} {metaOf : ι → FileMeta} {task : Stage ι φ}
    (h : task.status metaOf = .working) : task.hasExited = false := by
  cases task with
  | exited => simp [Stage.status] at h
  | _ => rfl

/-- A put stage with a file in its hands goes on. -/
theorem put_advances (h : w.watch.Running)
    (horder : ∀ file, w.pipe.put = .between (.ordering file) →
      checkOrder w.pipe.prev file.fileMeta.file = .ok ())
    (hbusy : w.pipe.put ≠ .receiving) : Advances cfg w := by
  have hfenced := fencedExit_of_running h
  have hworking : w.pipe.put.status Compressed.fileMeta = .working := h.stages .put
  cases hput : w.pipe.put with
  | receiving => exact absurd hput hbusy
  | rejected | exited => simp [hput, Stage.status] at hworking
  | attempt file failures =>
    refine ⟨.attempt .put, w.setPut (.running file failures), rfl, ?_, ?_⟩
    · simp only [step, attempt, hput, hfenced]
    · simp [work, handover, setPut, hput, Stage.work]
  | running file failures =>
    refine ⟨.putEnds ⟨.ok (), .ok false, .ok ()⟩, _, rfl, by
      simp only [step, putEnds, hput, PutTrial.result]; rfl, ?_⟩
    simp [work, handover, setPut, hput, Stage.work, PutPhase.work]
  | between phase =>
    cases phase with
    | ordering file =>
      refine ⟨.order, w.setPut (.attempt file 0), rfl, ?_, ?_⟩
      · simp only [step, order, hput, hfenced, horder file hput]
      · simp [work, handover, setPut, hput, Stage.work, PutPhase.work]
    | returned m =>
      refine ⟨.confirm, w.setPut (.between (.recording m)), rfl, ?_, ?_⟩
      · simp only [step, confirm, hput, hfenced]
      · simp [work, handover, setPut, hput, Stage.work, PutPhase.work]
    | recording m =>
      refine ⟨.record, _, rfl, by simp only [step, record, hput]; rfl, ?_⟩
      simp [work, handover, setPut, hput, Stage.work, PutPhase.work]
    | announcing m =>
      refine ⟨.announce, _, rfl, by simp only [step, announce, hput]; rfl, ?_⟩
      simp [work, handover, setPut, hput, Stage.work, PutPhase.work]
    | landing m =>
      refine ⟨.land, _, rfl, by simp only [step, land, hput]; rfl, ?_⟩
      simp [work, handover, hput, Stage.work, PutPhase.work]

/-- So does a gzip stage, once the channel behind it is free. -/
theorem gzip_advances (h : w.watch.Running)
    (hgzip : ∀ body, ∃ payload, cfg.gzip body = .ok payload) (hfree : w.pipe.toPut = [])
    (hbusy : w.pipe.gzip ≠ .receiving) : Advances cfg w := by
  have hfenced := fencedExit_of_running h
  have hworking : w.pipe.gzip.status Rendered.fileMeta = .working := h.stages .gzip
  cases hstage : w.pipe.gzip with
  | receiving => exact absurd hstage hbusy
  | rejected | exited => simp [hstage, Stage.status] at hworking
  | attempt file failures =>
    refine ⟨.attempt .gzip, w.setGzip (.running file failures), rfl, ?_, ?_⟩
    · simp only [step, attempt, hstage, hfenced]
    · simp [work, handover, setGzip, hstage, Stage.work]
  | running file failures =>
    obtain ⟨payload, hpayload⟩ := hgzip file.body
    refine ⟨.gzipEnds none, _, rfl, by
      simp only [step, gzipEnds, hstage, joined, hpayload]; rfl, ?_⟩
    simp [work, handover, setGzip, hstage, Stage.work]
  | between out =>
    have hput : w.pipe.put.hasExited = false := not_exited (h.stages .put)
    refine ⟨.send .gzip, { w with pipe := { w.pipe with gzip := .receiving, toPut := [out] } }, rfl,
      ?_, ?_⟩
    · simp [step, send, hstage, hput, hfree]
    · simp [work, handover, hstage, hfree, Stage.work]

/-- And a render stage. -/
theorem render_advances (h : w.watch.Running)
    (hrender : ∀ file failures, w.pipe.render = .running file failures →
      ∃ body rows, cfg.render file.batches = .ok (body, rows))
    (hfree : w.pipe.toGzip = []) (hbusy : w.pipe.render ≠ .receiving) : Advances cfg w := by
  have hfenced := fencedExit_of_running h
  have hworking : w.pipe.render.status Sealed.fileMeta = .working := h.stages .render
  cases hstage : w.pipe.render with
  | receiving => exact absurd hstage hbusy
  | rejected | exited => simp [hstage, Stage.status] at hworking
  | attempt file failures =>
    refine ⟨.attempt .render, w.setRender (.running file failures), rfl, ?_, ?_⟩
    · simp only [step, attempt, hstage, hfenced]
    · simp [work, handover, setRender, hstage, Stage.work]
  | running file failures =>
    obtain ⟨body, rows, hbody⟩ := hrender file failures hstage
    refine ⟨.renderEnds none, _, rfl, by
      simp only [step, renderEnds, hstage, joined, hbody]; rfl, ?_⟩
    by_cases hrows : 0 < rows <;>
      simp [work, handover, setRender, hstage, hrows, Stage.work, RenderPhase.work]
  | between phase =>
    cases phase with
    | calibrating out =>
      refine ⟨.calibrate, _, rfl, by simp only [step, calibrate, hstage]; rfl, ?_⟩
      simp [work, handover, setRender, hstage, Stage.work, RenderPhase.work]
    | sending out =>
      have hgzip : w.pipe.gzip.hasExited = false := not_exited (h.stages .gzip)
      refine ⟨.send .render,
        { w with pipe := { w.pipe with render := .receiving, toGzip := [out] } }, rfl, ?_, ?_⟩
      · simp [step, send, hstage, hgzip, hfree]
      · simp [work, handover, hstage, hfree, Stage.work, RenderPhase.work]

/-- A stage that waits takes the next file from its channel. -/
theorem take_advances :
    (w.pipe.put = .receiving → w.pipe.toPut ≠ [] → Advances cfg w) ∧
      (w.pipe.gzip = .receiving → w.pipe.toGzip ≠ [] → Advances cfg w) ∧
      (w.pipe.render = .receiving → w.pipe.queue ≠ [] → Advances cfg w) := by
  refine ⟨fun hput hqueue ↦ ?_, fun hgzip hqueue ↦ ?_, fun hrender hqueue ↦ ?_⟩
  · obtain ⟨file, rest, hfiles⟩ := List.exists_cons_of_ne_nil hqueue
    refine ⟨.receive .put, _, rfl, by simp only [step, receive, hput, hfiles]; rfl, ?_⟩
    simp [work, handover, hput, hfiles, Stage.work, PutPhase.work]
    omega
  · obtain ⟨file, rest, hfiles⟩ := List.exists_cons_of_ne_nil hqueue
    refine ⟨.receive .gzip, _, rfl, by simp only [step, receive, hgzip, hfiles]; rfl, ?_⟩
    by_cases hcompressed : file.fileMeta.file.compressed = true <;>
      simp [work, handover, hgzip, hfiles, hcompressed, Stage.work] <;> omega
  · obtain ⟨file, rest, hfiles⟩ := List.exists_cons_of_ne_nil hqueue
    refine ⟨.receive .render, _, rfl, by simp only [step, receive, hrender, hfiles]; rfl, ?_⟩
    simp [work, handover, hrender, hfiles, Stage.work]
    omega

/-- A file that was cut is sent. -/
theorem send_advances (hcut : w.handover ≠ []) : Advances cfg w := by
  obtain ⟨holder, sealed, hlock⟩ :
      ∃ holder sealed, w.lock = some ⟨holder, .sending sealed⟩ := by
    unfold handover at hcut
    split at hcut
    · next holder sealed hlock => exact ⟨holder, sealed, hlock⟩
    · exact absurd rfl hcut
  obtain ⟨after, hafter⟩ : ∃ after : Writer β, { w with
      pipe := { w.pipe with queue := w.pipe.queue ++ [sealed] }
      trace := { w.trace with sent := w.trace.sent ++ [sealed.fileMeta] } } = after := ⟨_, rfl⟩
  have hpipe :=
    (SamePipeline.finish (w := after) holder (.ok (some sealed.fileMeta.serialSeq))).pipe
  have hsent : (after.finish holder (.ok (some sealed.fileMeta.serialSeq))).handover = [] := by
    simp [handover, finish]
  refine ⟨.handOver 0, after.finish holder (.ok (some sealed.fileMeta.serialSeq)), rfl, ?_, ?_⟩
  · rw [← hafter]
    simp only [step, handOver, hlock]
  · rw [work, hpipe, hsent, ← hafter]
    simp [work, handover, hlock]
    omega

/-- Nothing that was cut is on its way. -/
structure Drained (w : Writer β) : Prop where
  line : w.pipe.line = []
  put : w.pipe.put = .receiving
  handover : w.handover = []

/-- As long as something is on its way, a smooth step lowers the work. -/
theorem advances (h : w.watch.Running)
    (horder : ∀ file, w.pipe.put = .between (.ordering file) →
      checkOrder w.pipe.prev file.fileMeta.file = .ok ())
    (hgzip : ∀ body, ∃ payload, cfg.gzip body = .ok payload)
    (hrender : ∀ file failures, w.pipe.render = .running file failures →
      ∃ body rows, cfg.render file.batches = .ok (body, rows))
    (hdrained : ¬ w.Drained) : Advances cfg w := by
  obtain ⟨htakePut, htakeGzip, htakeRender⟩ :
      (w.pipe.put = .receiving → w.pipe.toPut ≠ [] → Advances cfg w) ∧
        (w.pipe.gzip = .receiving → w.pipe.toGzip ≠ [] → Advances cfg w) ∧
        (w.pipe.render = .receiving → w.pipe.queue ≠ [] → Advances cfg w) := take_advances
  -- the stage furthest down the line goes first, as the channel behind it is free
  by_cases hput : w.pipe.put = .receiving
  swap
  · exact put_advances h horder hput
  by_cases htoPut : w.pipe.toPut = []
  swap
  · exact htakePut hput htoPut
  by_cases hgzipStage : w.pipe.gzip = .receiving
  swap
  · exact gzip_advances h hgzip htoPut hgzipStage
  by_cases htoGzip : w.pipe.toGzip = []
  swap
  · exact htakeGzip hgzipStage htoGzip
  by_cases hrenderStage : w.pipe.render = .receiving
  swap
  · exact render_advances h hrender htoGzip hrenderStage
  by_cases hqueue : w.pipe.queue = []
  swap
  · exact htakeRender hrenderStage hqueue
  by_cases hhandover : w.handover = []
  swap
  · exact send_advances hhandover
  refine absurd ⟨?_, hput, hhandover⟩ hdrained
  simp [Pipeline.line, hput, htoPut, hgzipStage, htoGzip, hrenderStage, hqueue, Stage.inHand]

/-! ### What a flush waits for -/

/-- A seal that returns leaves the flushes that wait. -/
theorem awaiting_kept_sealReturns {id : Nat} {call : FlushCall β} {target : Int}
    (h : w.flushes id = .awaiting call target) (result : Except Error (Option Int))
    (sealer : Sealer) : (w.sealReturns result sealer).flushes id = .awaiting call target := by
  cases sealer with
  | append => rw [flushes_sealReturns_append, h]
  | flush other =>
    simp only [sealReturns]
    split
    · next later wait hsealing =>
      have hother : id ≠ other := by
        rintro rfl
        simp [h] at hsealing
      rw [flushes_setFlush_of_ne hother, h]
    · exact h
  | ticker => exact h

/-- A smooth step leaves the flushes that wait. -/
theorem awaiting_kept {action : Action β} {w' : Writer β} (hsmooth : smooth action = true)
    (hstep : w.step cfg action = some w') {id : Nat} {call : FlushCall β} {target : Int}
    (h : w.flushes id = .awaiting call target) : w'.flushes id = .awaiting call target := by
  have hfinish {v : Writer β} {holder : Sealer} {result : Except Error (Option Int)}
      (hv : v.flushes id = w.flushes id) :
      (v.finish holder result).flushes id = .awaiting call target :=
    awaiting_kept_sealReturns (w := { v with lock := none }) (hv.trans h) result holder
  cases action with
  | handOver =>
    cases holder_cases hstep with
    | reserve | await | permit | close | lose | proceed => exact h
    | skip | yield | fail | report | send => exact hfinish rfl
    | cut =>
      unfold cut
      split
      · exact hfinish rfl
      · exact hfinish rfl
      · exact h
  | receive | attempt | renderEnds | gzipEnds | putEnds | calibrate | send | order
  | confirm | record | announce | land =>
    rcases stage_cases hstep rfl with hmove | hmove | hmove <;> (cases hmove <;> exact h)
  | _ => simp [smooth] at hsmooth

variable {epochMs : Nat} {stagedOffset resumePersisted : Option Int}

/-- Once nothing is on its way, everything that was cut is recorded, and the last of it is the
newest durable file. -/
theorem Drained.recorded (h : w.Drained)
    (hreach : ReachableFrom cfg epochMs stagedOffset resumePersisted w) :
    w.trace.recorded = w.trace.cuts.map Cut.fileMeta ∧
      w.progress.durableSeq = w.trace.cuts.getLast?.map fun cut ↦ cut.fileMeta.serialSeq := by
  have hput := h.put
  have hfiles := hreach.files
  have hcuts : w.trace.cuts.map Cut.fileMeta = w.trace.putReturned ++ w.pipe.line ++ w.handover :=
    hfiles.conserved
  rw [h.line, h.handover, List.append_nil, List.append_nil] at hcuts
  have hvalid := hfiles.place
  rw [Files.PlaceValid, show w.files.place = .ready by simp [files, hput, PutPlace.of]] at hvalid
  have hrecorded : w.trace.recorded = w.trace.putReturned := hvalid.1
  obtain ⟨landed, hlanded, -, hdurable⟩ := hreach.remembers (by simp [hput, Stage.hasExited])
  rw [hput] at hlanded
  have hall : w.trace.putReturned = landed := hlanded.trans (List.append_nil landed)
  refine ⟨hrecorded.trans hcuts.symm, ?_⟩
  rw [hdurable, ← hall, ← hcuts, List.getLast?_map, Option.map_map]
  rfl

/-- Then every flush that waits can go on. -/
theorem Drained.flushAwait (h : w.Drained)
    (hreach : ReachableFrom cfg epochMs stagedOffset resumePersisted w) {id : Nat}
    {call : FlushCall β} {target : Int} (hflush : w.flushes id = .awaiting call target) :
    w.step cfg (.flushAwait id) = some (w.setFlush id (FlushCall.durable call)) := by
  obtain ⟨cut, hcut, rfl⟩ := hreach.awaiting_cut hflush
  obtain ⟨earlier, last, hcuts⟩ : ∃ earlier last, w.trace.cuts = earlier ++ [last] :=
    ⟨_, _, (List.dropLast_append_getLast (List.ne_nil_of_mem hcut)).symm⟩
  have hdurable := (h.recorded hreach).2
  rw [hcuts, List.getLast?_concat, Option.map_some] at hdurable
  have hle : cut.fileMeta.serialSeq ≤ last.fileMeta.serialSeq := by
    have hincreasing : w.trace.cuts.Pairwise fun a b ↦
        a.fileMeta.serialSeq < b.fileMeta.serialSeq := hreach.rows.2.increasing
    rw [hcuts, List.pairwise_append] at hincreasing
    rw [hcuts, List.mem_append, List.mem_singleton] at hcut
    rcases hcut with hearlier | rfl
    · exact (hincreasing.2.2 cut hearlier last (List.mem_singleton_self last)).le
    · exact le_rfl
  simp [step, Writer.flushAwait, hflush, hdurable, hle]

end Work

section Runs

variable {schema : OpenedSchema} {cfg : WriterConfig RecordBatch} {w : Writer RecordBatch}
  {epochMs : Nat} {stagedOffset resumePersisted : Option Int}

/-- An undisturbed writer of an opened table advances until it is drained. -/
theorem undisturbed_advances (hwrites : schema.Writes cfg)
    (hgzip : ∀ body, ∃ payload, cfg.gzip body = .ok payload)
    (hreach : ReachableUnder (step cfg) (fun _ action ↦ undisturbed action = true)
      (new epochMs stagedOffset resumePersisted) w) (hbusy : ¬ w.Drained) : Advances cfg w := by
  have hretried (body : Text) (err : Error) (herr : cfg.gzip body = .error err) :
      err.isPermanent = false := by
    obtain ⟨payload, hpayload⟩ := hgzip body
    simp [hpayload] at herr
  have hrunning := (running_of_undisturbed hwrites hretried hreach).1
  refine advances hrunning (order_never_trips hreach.reachable).2 hgzip ?_ hbusy
  intro file failures hstage
  have hheld := (ReachableFrom.carries hreach.reachable).render
  rw [hstage] at hheld
  obtain ⟨cut, hcut, rfl⟩ := hheld
  exact ReachableFrom.cut_renders hwrites hreach.reachable hcut

/-- From every state that a writer of an opened table reaches while nobody takes it over, the stages
can make durable whatever was cut, and every flush that waits then goes on. -/
theorem drains (hwrites : schema.Writes cfg)
    (hgzip : ∀ body, ∃ payload, cfg.gzip body = .ok payload)
    (hreach : ReachableUnder (step cfg) (fun _ action ↦ undisturbed action = true)
      (new epochMs stagedOffset resumePersisted) w) :
    ∃ actions w', (∀ action ∈ actions, smooth action = true) ∧
      run (step cfg) w actions = some w' ∧ w'.Drained ∧ w.trace.cuts ⊆ w'.trace.cuts ∧
      w'.trace.recorded = w'.trace.cuts.map Cut.fileMeta ∧
      ∀ id call target, w.flushes id = .awaiting call target →
        w'.step cfg (.flushAwait id) = some (w'.setFlush id (FlushCall.durable call)) := by
  have hprogress (v : Writer RecordBatch)
      (hv : ReachableUnder (step cfg) (fun _ action ↦ undisturbed action = true)
          (new epochMs stagedOffset resumePersisted) v ∧
        ∀ id call target, w.flushes id = .awaiting call target →
          v.flushes id = .awaiting call target) (hbusy : ¬ v.Drained) :
      ∃ action v', smooth action = true ∧ v.step cfg action = some v' ∧
        (ReachableUnder (step cfg) (fun _ action ↦ undisturbed action = true)
            (new epochMs stagedOffset resumePersisted) v' ∧
          ∀ id call target, w.flushes id = .awaiting call target →
            v'.flushes id = .awaiting call target) ∧ v'.work < v.work := by
    obtain ⟨action, v', hsmooth, hstep, hless⟩ := undisturbed_advances hwrites hgzip hv.1 hbusy
    exact ⟨action, v', hsmooth, hstep, ⟨hv.1.snoc (undisturbed_of_smooth hsmooth) hstep,
      fun id call target h ↦ awaiting_kept hsmooth hstep (hv.2 id call target h)⟩, hless⟩
  obtain ⟨actions, w', hactions, hrun, ⟨hlater, hwaiting⟩, hdrained⟩ :=
    exists_run_of_measure _ _ Drained work hprogress ⟨hreach, fun _ _ _ h ↦ h⟩
  exact ⟨actions, w', hactions, hrun, hdrained, cuts_subset (reachable_of_run .refl hrun),
    (hdrained.recorded hlater.reachable).1,
    fun id call target h ↦ hdrained.flushAwait hlater.reachable (hwaiting id call target h)⟩

end Runs

theorem drains_putFailing :
    ∃ actions w', (∀ action ∈ actions, smooth action = true) ∧
      run (step sampleConfig) putFailing actions = some w' ∧ w'.Drained ∧
      putFailing.trace.cuts ⊆ w'.trace.cuts ∧
      w'.trace.recorded = w'.trace.cuts.map Cut.fileMeta ∧
      ∀ id call target, putFailing.flushes id = .awaiting call target →
        w'.step sampleConfig (.flushAwait id) = some (w'.setFlush id (FlushCall.durable call)) :=
  drains sampleTextOpened_writes (by simp [sampleConfig, WriterConfig.ofTable])
    putFailing_reachable

end Writer

end RelytIngest
