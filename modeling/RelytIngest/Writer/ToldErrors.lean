import RelytIngest.Writer.StageSteps
import RelytIngest.Writer.Frames

/-!
# What the callers are told

The errors that `append`, `flush` and `close` return come from three places: the check of the call
itself, the encoding of a file's number, and what the writer has to tell about itself (its stopped
states, the failing slot of the progress channel, and a closed seal channel). As long as the writer
has no stop to tell (`Healthy`), no caller is told of one (`Untold.step`).
-/

set_option autoImplicit false
set_option relaxedAutoImplicit false

namespace RelytIngest

/-- The error says that the writer has stopped by itself or was taken over. -/
def Error.saysStopped : Error → Bool
  | .writerFenced _ | .rotationFailed _ _ | .stagingOrderViolation _ | .writerClosed => true
  | _ => false

/-- A file whose number does not fit is a naming error. -/
theorem saysStopped_sealMeta {β : Type} {cfg : WriterConfig β} {file : StagedFile} {err : Error}
    (hmeta : WriterState.sealMeta cfg file = .error err) : err.saysStopped = false := by
  have hserial : ∀ err, file.serialSeq = .error err → err.saysStopped = false := by
    intro err herr
    unfold StagedFile.serialSeq encodeSerialSeq at herr
    split_ifs at herr <;> exact Except.error.inj herr ▸ rfl
  have hidentifier : ∀ err, file.identifier cfg.ident = .error err → err.saysStopped = false := by
    intro err herr
    unfold StagedFile.identifier at herr
    split_ifs at herr
    exact Except.error.inj herr ▸ rfl
  unfold WriterState.sealMeta at hmeta
  cases hseq : file.serialSeq with
  | error err' =>
    rw [hseq] at hmeta
    exact Except.error.inj hmeta ▸ hserial err' hseq
  | ok seq =>
    cases hident : file.identifier cfg.ident with
    | error err' =>
      rw [hseq, hident] at hmeta
      exact Except.error.inj hmeta ▸ hidentifier err' hident
    | ok identifier =>
      rw [hseq, hident] at hmeta
      simp [bind, Except.bind, pure, Except.pure] at hmeta

namespace Writer

variable {β : Type} {cfg : WriterConfig β} {w w' : Writer β}

/-- The writer has no stop to tell. -/
structure Healthy (cfg : WriterConfig β) (w : Writer β) : Prop where
  fatal : ∀ err, w.fatalState cfg = some err → err.saysStopped = false
  stalled : ∀ target err, w.progress.stallError cfg.stagingErrorAfterAttempts target = some err →
    err.saysStopped = false
  held : ∀ holder, w.lock ≠ some ⟨holder, .gone⟩

/-- No caller of the writer was told that it has stopped. -/
structure Untold (w : Writer β) : Prop where
  append : ∀ entry maxEndBefore err, w.append = .unbuffering entry maxEndBefore err →
    err.saysStopped = false
  returned : ∀ r ∈ w.trace.returned, ∀ err, r.result = .error err → err.saysStopped = false
  flushes : ∀ id call err, w.flushes id = .returned call (.error err) → err.saysStopped = false

namespace Untold

theorem new (epochMs : Nat) (stagedOffset resumePersisted : Option Int) :
    (Writer.new epochMs stagedOffset resumePersisted : Writer β).Untold := by
  constructor <;> simp [Writer.new]

/-- Steps that leave the callers alone. -/
theorem congr (h : w.Untold) (happend : w'.append = w.append)
    (hreturned : w'.trace.returned = w.trace.returned) (hflushes : w'.flushes = w.flushes) :
    w'.Untold where
  append := happend ▸ h.append
  returned := hreturned ▸ h.returned
  flushes := hflushes ▸ h.flushes

theorem setFlush (h : w.Untold) (id : Nat) {task : FlushTask β}
    (htask : ∀ call err, task = .returned call (.error err) → err.saysStopped = false) :
    (w.setFlush id task).Untold where
  append := h.append
  returned := h.returned
  flushes other call err hother := by
    simp only [Writer.setFlush] at hother
    by_cases hid : other = id
    · rw [hid, Function.update_self] at hother
      exact htask call err hother
    · rw [Function.update_of_ne hid] at hother
      exact h.flushes other call err hother

/-- The running append returns. -/
theorem appendReturns (h : w.Untold) (entry : Entry β) (maxEndBefore : Option Int)
    {result : Except Error Unit} (hresult : ∀ err, result = .error err → err.saysStopped = false) :
    (w.appendReturns entry maxEndBefore result).Untold where
  append := by simp [Writer.appendReturns]
  returned r hr err hrerr := by
    rcases List.mem_append.mp hr with hold | hnew
    · exact h.returned r hold err hrerr
    · obtain rfl := List.mem_singleton.mp hnew
      exact hresult err hrerr
  flushes := h.flushes

theorem setWait (h : w.Untold) (wait : SealWait) (sealer : Sealer) :
    (w.setWait wait sealer).Untold := by
  cases sealer with
  | append =>
    simp only [Writer.setWait]
    split
    · exact ⟨by simp, h.returned, h.flushes⟩
    · exact h
  | flush id =>
    simp only [Writer.setWait]
    split
    · exact h.setFlush id (by simp)
    · exact h
  | ticker => exact h.congr rfl rfl rfl

theorem sealReturns (h : w.Untold) (sealer : Sealer) {result : Except Error (Option Int)}
    (hresult : ∀ err, result = .error err → err.saysStopped = false) :
    (w.sealReturns result sealer).Untold := by
  cases sealer with
  | append =>
    simp only [Writer.sealReturns]
    split
    · cases result with
      | ok value => exact h.appendReturns _ _ (by simp)
      | error err =>
        refine ⟨fun entry maxEndBefore err' htask ↦ ?_, h.returned, h.flushes⟩
        obtain ⟨-, -, rfl⟩ := AppendTask.unbuffering.inj htask
        exact hresult _ rfl
    · exact h
  | flush id =>
    simp only [Writer.sealReturns]
    split
    · refine h.setFlush id fun call err htask ↦ ?_
      split at htask
      · simp at htask
      · simp at htask
      · obtain ⟨-, herr⟩ := FlushTask.returned.inj htask
        exact hresult err (congrArg _ (Except.error.inj herr))
    · exact h
  | ticker => exact h.congr rfl rfl rfl

theorem finish (h : w.Untold) (holder : Sealer) {result : Except Error (Option Int)}
    (hresult : ∀ err, result = .error err → err.saysStopped = false) :
    (w.finish holder result).Untold :=
  (h.congr rfl rfl rfl : ({ w with lock := none } : Writer β).Untold).sealReturns holder hresult

theorem setPersist (h : w.Untold) (next : Option PersistPhase) (persister : Persister) :
    (w.setPersist next persister).Untold := by
  cases persister with
  | ticker => exact h.congr rfl rfl rfl
  | close id =>
    simp only [Writer.setPersist]
    split
    · exact h.setFlush id (by cases next <;> simp)
    · exact h

theorem append_step {action : Action β} (h : w.Untold) (hhealthy : w.Healthy cfg)
    (hstep : w.step cfg action = some w')
    (happend : action matches .appendCall .. | .appendPush _ | .appendUnbuffer) : w'.Untold := by
  cases action <;> simp only [reduceCtorEq] at happend <;> simp only [step] at hstep
  case appendCall batch startOffset endOffset =>
    unfold appendCall at hstep
    split at hstep
    · have hcalled : ({ w with trace := { w.trace with calls := w.trace.calls + 1 } } :
          Writer β).Untold := h.congr rfl rfl rfl
      obtain rfl := Option.some.inj hstep
      split
      · next err hfatal =>
        refine hcalled.appendReturns _ _ fun err' herr ↦ ?_
        exact Except.error.inj herr ▸ hhealthy.fatal err hfatal
      · split_ifs
        · exact hcalled.appendReturns _ _ fun err herr ↦ Except.error.inj herr ▸ rfl
        · exact ⟨by simp, h.returned, h.flushes⟩
        · exact hcalled.appendReturns _ _ fun err herr ↦ Except.error.inj herr ▸ rfl
    · simp at hstep
  case appendPush now =>
    unfold appendPush at hstep
    split at hstep
    · obtain rfl := Option.some.inj hstep
      split
      · next err hforward =>
        refine h.appendReturns _ _ fun err' herr ↦ ?_
        unfold WriterState.checkForward at hforward
        obtain rfl := Except.error.inj herr
        split at hforward
        · split_ifs at hforward
          exact Except.error.inj hforward ▸ rfl
        · simp at hforward
      · dsimp only
        split_ifs
        · exact ⟨by simp, h.returned, h.flushes⟩
        · refine Untold.appendReturns ?_ _ _ (by simp)
          exact h.congr rfl rfl rfl
    · simp at hstep
  case appendUnbuffer =>
    unfold appendUnbuffer at hstep
    split at hstep
    · next entry maxEndBefore err htask =>
      have herr := h.append entry maxEndBefore err htask
      obtain rfl := Option.some.inj hstep
      split
      · refine Untold.appendReturns ?_ _ _ fun err' herr' ↦ Except.error.inj herr' ▸ herr
        exact h.congr rfl rfl rfl
      · refine h.appendReturns _ _ fun err' herr' ↦ ?_
        split_ifs at herr'
        exact Except.error.inj herr' ▸ herr
    · simp at hstep

theorem flush_step {action : Action β} (h : w.Untold) (hhealthy : w.Healthy cfg)
    (hstep : w.step cfg action = some w')
    (hflush : action matches .flushCall .. | .flushLookup _ | .flushAwait _ | .flushRead _) :
    w'.Untold := by
  have hdurable (call later : FlushCall β) (err : Error)
      (htask : FlushCall.durable call = .returned later (.error err)) :
      err.saysStopped = false := by
    unfold FlushCall.durable at htask
    split_ifs at htask
  cases action <;> simp only [reduceCtorEq] at hflush <;> simp only [step] at hstep
  case flushCall id closing =>
    unfold flushCall at hstep
    split at hstep
    · obtain rfl := Option.some.inj hstep
      refine h.setFlush id fun call err htask ↦ ?_
      split at htask
      · next err' hfatal =>
        obtain ⟨-, herr⟩ := FlushTask.returned.inj htask
        exact Except.error.inj herr ▸ hhealthy.fatal err' hfatal
      · simp at htask
    · simp at hstep
  case flushLookup id =>
    unfold flushLookup at hstep
    split at hstep
    · obtain rfl := Option.some.inj hstep
      refine h.setFlush id fun call err htask ↦ ?_
      split at htask
      · simp at htask
      · exact hdurable _ call err htask
    · simp at hstep
  case flushAwait id =>
    unfold flushAwait at hstep
    split at hstep
    · split_ifs at hstep
      · obtain rfl := Option.some.inj hstep
        exact h.setFlush id fun call err htask ↦ hdurable _ call err htask
      · obtain ⟨err, hstalled, rfl⟩ := Option.map_eq_some_iff.mp hstep
        refine h.setFlush id fun call err' htask ↦ ?_
        obtain ⟨-, herr⟩ := FlushTask.returned.inj htask
        exact Except.error.inj herr ▸ hhealthy.stalled _ err hstalled
    · simp at hstep
  case flushRead id =>
    unfold flushRead at hstep
    split at hstep
    · obtain rfl := Option.some.inj hstep
      exact h.setFlush id (by simp)
    · simp at hstep

theorem holder_step {now : Nat} (h : w.Untold) (hhealthy : w.Healthy cfg)
    (hstep : HolderStep cfg w now w') : w'.Untold := by
  cases hstep with
  | reserve | await | close | lose | proceed | permit => exact h.congr rfl rfl rfl
  | skip | yield => exact h.finish _ (by simp)
  | fail holder phase err hlock hphase hfatal =>
    exact h.finish _ fun err' herr ↦ Except.error.inj herr ▸ hhealthy.fatal err hfatal
  | report holder hlock => exact absurd hlock (hhealthy.held holder)
  | cut holder hlock =>
    unfold cut
    split
    · next err st hseal =>
      obtain ⟨-, file, hmeta⟩ := WriterState.sealBuffer_error hseal
      refine Untold.finish ?_ holder fun err' herr ↦
        Except.error.inj herr ▸ saysStopped_sealMeta hmeta
      exact h.congr rfl rfl rfl
    · refine Untold.finish ?_ holder (by simp)
      exact h.congr rfl rfl rfl
    · exact h.congr rfl rfl rfl
  | send holder sealed =>
    refine Untold.finish ?_ holder (by simp)
    exact h.congr rfl rfl rfl

theorem step {action : Action β} (h : w.Untold) (hhealthy : w.Healthy cfg)
    (hstep : w.step cfg action = some w') : w'.Untold := by
  cases action with
  | appendCall | appendPush | appendUnbuffer => exact h.append_step hhealthy hstep rfl
  | flushCall | flushLookup | flushAwait | flushRead => exact h.flush_step hhealthy hstep rfl
  | tick | tickerCheck =>
    obtain ⟨task, rfl, -⟩ := ticker_cases hstep rfl
    exact h.congr rfl rfl rfl
  | persistBegin | persistRecheck | persistWrite =>
    obtain ⟨resume, next, persister, rfl⟩ := persist_cases hstep rfl
    refine Untold.setPersist ?_ _ _
    exact h.congr rfl rfl rfl
  | tryLock | acquire | stall =>
    cases sealer_cases hstep rfl with
    | skip => exact h.sealReturns _ (by simp)
    | park sealer => exact h.setWait _ _
    | take sealer => exact (h.setWait .holding sealer).congr rfl rfl rfl
    | giveUp sealer err hstalled =>
      exact h.sealReturns _ fun err' herr ↦ Except.error.inj herr ▸ hhealthy.stalled _ err hstalled
    | letGo sealer err hstalled =>
      exact h.finish _ fun err' herr ↦ Except.error.inj herr ▸ hhealthy.stalled _ err hstalled
  | handOver => exact h.holder_step hhealthy (holder_cases hstep)
  | receive | attempt | renderEnds | gzipEnds | putEnds | giveUp | calibrate | send | order
  | confirm | record | announce | land =>
    rcases stage_cases hstep rfl with hmove | hmove | hmove <;>
      exact h.congr (by cases hmove <;> rfl) (by cases hmove <;> rfl) (by cases hmove <;> rfl)
  | fence | serialViolation | notifierStops =>
    exact h.congr (Option.some.inj hstep ▸ rfl) (Option.some.inj hstep ▸ rfl)
      (Option.some.inj hstep ▸ rfl)

end Untold

end Writer

end RelytIngest
