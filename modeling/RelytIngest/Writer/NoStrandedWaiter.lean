import RelytIngest.Writer.Watch

/-!
# No stranded waiter

A stage task publishes a terminal entry before it ends, or ends because a neighbour has ended
(`Watch.Sound`), and no step changes a terminal entry (`Watch.Move.stays`). `no_stranded_waiter`
concludes that whoever waits on the pipeline of a writer with an ended stage has a step that returns
the error of the first terminal cause.
-/

set_option autoImplicit false
set_option relaxedAutoImplicit false

namespace RelytIngest

open Foundations Relation

namespace Watch

variable {failure : Option (Int × Error)} {fence : Bool} {v v' : Watch}

/-- An ended stage has left a terminal entry. -/
structure Sound (v : Watch) : Prop where
  published : v.Ended → v.progress.terminal
  wellFormed : v.progress.WellFormed
  closed : v.closed = true → v.Ended

/-- No move changes a terminal entry. -/
theorem Move.stays (hmove : Move failure fence v v') (h : v.Sound) {f : Failing}
    (hf : v.progress.failing = some f) (hterminal : f.kind.isTerminal) :
    v'.progress.failing = some f := by
  have hpublished : v.progress.terminal := by simp [Progress.terminal, hf, hterminal]
  cases hmove with
  | fence | violate | follow | confirm | announce | close | leave => exact hf
  | pass seq hseq hother => exact h.wellFormed.clearFailure_failing hseq hf hterminal
  | fail stage attempt seq err hfailure hseq hworking =>
    exact (congrArg Progress.failing
      (Progress.reportFailure_of_terminal hpublished seq stage.label attempt _ err)).trans hf
  | giveUp stage seq cause last hrejected =>
    exact (congrArg Progress.failing
      (Progress.publishTerminal_of_terminal hpublished .rotation stage.label _ last)).trans hf
  | drop stage reason hfenced =>
    exact (congrArg Progress.failing
      (Progress.publishTerminal_of_terminal hpublished .fenced "pipeline" none reason)).trans hf
  | trip stage detail =>
    exact (congrArg Progress.failing
      (Progress.publishTerminal_of_terminal hpublished .orderViolation "pipeline" none
        detail)).trans hf
  | land seq hlater => exact (Progress.land_failing_of_terminal hpublished seq).trans hf
  | gone hclosed =>
    exact (congrArg Progress.failing (Progress.pipelineGone_of_terminal hpublished)).trans hf

theorem Move.terminal (hmove : Move failure fence v v') (h : v.Sound)
    (hterminal : v.progress.terminal) : v'.progress.terminal := by
  obtain ⟨f, hf, hkind⟩ := (Option.any_eq_true _ _).mp hterminal
  simp [Progress.terminal, hmove.stays h hf hkind, hkind]

/-- A move that ends no stage keeps a watch sound. -/
theorem Sound.keeps (h : v.Sound) (hterminal : v.progress.terminal → v'.progress.terminal)
    (hended : ∀ stage, v'.stages stage = .ended → v.stages stage = .ended)
    (hwellFormed : v'.progress.WellFormed) (hclosed : v'.closed = true → v'.Ended) : v'.Sound where
  published := fun ⟨stage, hstage⟩ ↦ hterminal (h.published ⟨stage, hended stage hstage⟩)
  wellFormed := hwellFormed
  closed := hclosed

theorem ended_update (v : Watch) (stage : StageName) :
    (⟨v.progress, v.fenced, v.outOfOrder, v.inViolation, Function.update v.stages stage .ended,
      v.closed, v.atRecord⟩ : Watch).Ended :=
  ⟨stage, Function.update_self ..⟩

theorem Sound.move (h : v.Sound) (hmove : Move failure fence v v') : v'.Sound := by
  have hterminal := hmove.terminal h
  cases hmove with
  | fence | violate | announce | confirm => exact ⟨h.published, h.wellFormed, h.closed⟩
  | leave => exact ⟨h.published, h.wellFormed, by simp⟩
  | close hended => exact ⟨h.published, h.wellFormed, fun _ ↦ hended⟩
  | pass seq hseq hother =>
    exact h.keeps hterminal (fun _ hstage ↦ hstage) (h.wellFormed.clearFailure seq)
      h.closed
  | land seq hlater =>
    exact h.keeps hterminal (fun _ hstage ↦ hstage) (h.wellFormed.land seq) h.closed
  | gone hclosed =>
    exact h.keeps hterminal (fun _ hstage ↦ hstage) h.wellFormed.pipelineGone (by simp)
  | fail stage attempt seq err hfailure hseq hworking =>
    -- the stage that reports was working, so the stages that have ended are the same
    have hended (s : StageName) : (if err.isPermanent then
        Function.update v.stages stage (.rejected seq) else v.stages) s = .ended ↔
        v.stages s = .ended := by
      split_ifs
      · by_cases hs : s = stage
        · simp [hs, hworking]
        · simp [hs]
      · exact Iff.rfl
    refine h.keeps hterminal (fun s hstage ↦ (hended s).mp hstage)
      (h.wellFormed.reportFailure _ _ _ _ _) fun hclosed ↦ ?_
    obtain ⟨s, hs⟩ := h.closed hclosed
    exact ⟨s, (hended s).mpr hs⟩
  | giveUp stage seq cause last hrejected =>
    exact ⟨fun _ ↦ Progress.publishTerminal_terminal _ rfl _ _ _,
      h.wellFormed.publishTerminal _ _ _ _, fun _ ↦ ended_update v stage⟩
  | drop stage reason hfenced =>
    exact ⟨fun _ ↦ Progress.publishTerminal_terminal _ rfl _ _ _,
      h.wellFormed.publishTerminal _ _ _ _, fun _ ↦ ended_update v stage⟩
  | trip stage detail =>
    exact ⟨fun _ ↦ Progress.publishTerminal_terminal _ rfl _ _ _,
      h.wellFormed.publishTerminal _ _ _ _, fun _ ↦ ended_update v stage⟩
  | follow stage hended =>
    exact ⟨fun _ ↦ h.published hended, h.wellFormed, fun _ ↦ ended_update v stage⟩

end Watch

namespace Writer

variable {β : Type} {cfg : WriterConfig β} {epochMs : Nat}
  {stagedOffset resumePersisted : Option Int} {w w' : Writer β}

theorem sound_new : (new epochMs stagedOffset resumePersisted : Writer β).watch.Sound where
  published := fun ⟨stage, hstage⟩ ↦ by cases stage <;> simp [watch, new, Pipeline.statuses,
    Pipeline.initial, Stage.status] at hstage
  wellFormed := by simp [Progress.WellFormed, watch, new, Progress.initial]
  closed := by simp [watch, new]

theorem ReachableFrom.sound (hreach : ReachableFrom cfg epochMs stagedOffset resumePersisted w) :
    w.watch.Sound :=
  watch_invariant Watch.Sound sound_new (fun _ _ _ h _ hmove ↦ h.move hmove) hreach

/-- A terminal entry is there in every state that follows. -/
theorem ReachableFrom.terminal_stays
    (hreach : ReachableFrom cfg epochMs stagedOffset resumePersisted w) {f : Failing}
    (hf : w.progress.failing = some f) (hterminal : f.kind.isTerminal)
    (hlater : Reachable (step cfg) w w') : w'.progress.failing = some f := by
  refine ReachableUnder.strengthened (fun w ↦ w.progress.failing = some f) hf ?_ hlater
  intro before action after hbefore hentry _ hstep
  have hrun : ReachableFrom cfg epochMs stagedOffset resumePersisted before := hreach.trans hbefore
  rcases (reflGen_iff ..).mp (watch_step hrun.lineOrdered hstep) with hsame | hmove
  · have hprogress : after.progress = before.progress := congrArg Watch.progress hsame
    rw [hprogress]
    exact hentry
  · exact hmove.stays hrun.sound hentry hterminal

/-- A sealer waits for the seal lock, or holds it and waits for room in the queue. -/
def Parked (w : Writer β) (sealer : Sealer) (wait : SealWait) : Prop :=
  wait = .parked ∨ w.awaitsRoom sealer = true

/-- No caller of the writer is stranded. -/
structure NoStrandedWaiter (cfg : WriterConfig β) (w : Writer β) : Prop where
  /-- A stage that has ended has published a terminal entry. -/
  published : w.pipe.render.hasExited ∨ w.pipe.gzip.hasExited ∨ w.pipe.put.hasExited →
    ∃ f, w.progress.failing = some f ∧ f.kind.isTerminal
  /-- The first terminal entry is never changed or cleared. -/
  stays : ∀ f, w.progress.failing = some f → f.kind.isTerminal →
    ∀ w', Reachable (step cfg) w w' → w'.progress.failing = some f
  /-- It stalls a waiter on any target. -/
  stalls : ∀ f, w.progress.failing = some f → f.kind.isTerminal → ∀ target, i64Min ≤ target →
    w.progress.stallError cfg.stagingErrorAfterAttempts target = some (terminalError f)
  /-- A flush, or the drain of a close, that waits for a file above the durable seq. -/
  awaiting : ∀ f, w.progress.failing = some f → f.kind.isTerminal → ∀ id call target,
    w.flushes id = .awaiting call target → i64Min ≤ target →
      (∀ d, w.progress.durableSeq = some d → d < target) →
        w.step cfg (.flushAwait id) =
          some (w.setFlush id (.returned call (.error (terminalError f))))
  /-- A flush, or the drain of a close, parked in its hand-over. -/
  sealing : ∀ f, w.progress.failing = some f → f.kind.isTerminal → ∀ id call wait,
    w.flushes id = .sealing call wait → w.Parked (.flush id) wait →
      ∃ w', w.step cfg (.stall (.flush id)) = some w' ∧
        w'.flushes id = .returned call (.error (terminalError f))
  /-- An append parked in its hand-over: it returns once it has taken its batch back. -/
  appending : ∀ f, w.progress.failing = some f → f.kind.isTerminal → ∀ entry maxEndBefore wait,
    w.append = .sealing entry maxEndBefore wait → w.Parked .append wait →
      ∃ w' w'', w.step cfg (.stall .append) = some w' ∧ w'.step cfg .appendUnbuffer = some w'' ∧
        w''.append = .idle ∧
        w''.trace.returned.getLast? = some ⟨entry, maxEndBefore, .error (terminalError f)⟩

/-- A parked sealer that is told of a stall returns with it. -/
theorem stall_of_parked (cfg : WriterConfig β) (sealer : Sealer) {wait : SealWait} {err : Error}
    (hstalled : w.stalled cfg = some err) (hwait : w.waitOf sealer = some wait)
    (hparked : w.Parked sealer wait) :
    ∃ lock, w.step cfg (.stall sealer) =
      some (({ w with lock := lock } : Writer β).sealReturns (.error err) sealer) := by
  simp only [step, stall, hstalled, hwait, Option.some.injEq]
  rcases hparked with rfl | hroom
  · exact ⟨w.lock, if_pos rfl⟩
  · by_cases hpark : wait = .parked
    · exact ⟨w.lock, if_pos hpark⟩
    · exact ⟨none, by rw [if_neg hpark, if_pos hroom]⟩

theorem terminalError_isStagingStalled {f : Failing} (hterminal : f.kind.isTerminal) :
    (terminalError f).isStagingStalled = false := by
  obtain ⟨seq, stage, attempts, permanent, cause, kind, last⟩ := f
  cases kind <;> first | rfl | simp [FailKind.isTerminal] at hterminal

/-- In every run no caller is stranded. -/
theorem no_stranded_waiter (cfg : WriterConfig β) (epochMs : Nat)
    (stagedOffset resumePersisted : Option Int)
    (hreach : ReachableFrom cfg epochMs stagedOffset resumePersisted w) : NoStrandedWaiter cfg w := by
  have hsound := hreach.sound
  have hstall (f : Failing) (hf : w.progress.failing = some f) (hterminal : f.kind.isTerminal)
      (target : Int) (htarget : i64Min ≤ target) :
      w.progress.stallError cfg.stagingErrorAfterAttempts target = some (terminalError f) :=
    hsound.wellFormed.stallError _ hf hterminal (by simp only [i64Min] at htarget; omega)
  refine ⟨fun hexited ↦ ?_, fun f hf hterminal w' ↦ hreach.terminal_stays hf hterminal, hstall,
    fun f hf hterminal id call target hflush htarget hdurable ↦ ?_,
    fun f hf hterminal id call wait hflush hparked ↦ ?_,
    fun f hf hterminal entry maxEndBefore wait happend hparked ↦ ?_⟩
  · have hended : w.watch.Ended := by
      rcases hexited with hrender | hgzip | hput
      · exact ended_of_render hrender
      · exact ended_of_gzip hgzip
      · exact ended_of_put hput
    exact (Option.any_eq_true _ _).mp (hsound.published hended)
  · have hpending : (w.progress.durableSeq.any fun d ↦ decide (target ≤ d)) = false := by
      cases hd : w.progress.durableSeq with
      | none => rfl
      | some d => simpa using hdurable d hd
    simp only [step, flushAwait, hflush, hpending, hstall f hf hterminal target htarget,
      Bool.false_eq_true, if_false, Option.map_some]
  · obtain ⟨lock, hstep⟩ := stall_of_parked cfg (.flush id)
      (hstall f hf hterminal i64Max (by decide)) (by simp [waitOf, hflush]) hparked
    refine ⟨_, hstep, ?_⟩
    simp [sealReturns, hflush, setFlush]
  · obtain ⟨lock, hstep⟩ := stall_of_parked cfg .append
      (hstall f hf hterminal i64Max (by decide)) (by simp [waitOf, happend]) hparked
    have htold : (({ w with lock := lock } : Writer β).sealReturns (.error (terminalError f))
        .append).append = .unbuffering entry maxEndBefore (terminalError f) := by
      simp [sealReturns, happend]
    refine ⟨_, _, hstep, by simp only [step, appendUnbuffer, htold]; rfl, ?_, ?_⟩
    · split <;> rfl
    · split
      · simp [appendReturns]
      · simp [appendReturns, terminalError_isStagingStalled hterminal]

/-- A writer that is fenced while a flush waits for `[10, 19]`: the render stage drops the file and
ends. -/
def fencedWhileFlushing : Writer RecordBatch :=
  (run (step sampleConfig) flushed
    ([.flushCall 1 false, .tryLock (.flush 1) false] ++ List.replicate 5 (.handOver 0) ++
      [.fence "taken over", .receive .render, .attempt .render])).getD flushed

/-- The flush of that writer is not stranded. -/
theorem no_stranded_waiter_fenced : NoStrandedWaiter sampleConfig fencedWhileFlushing :=
  no_stranded_waiter sampleConfig 1 none none
    (reachable_getD_of_run flushed_reachable (by decide +kernel))

end Writer

end RelytIngest
