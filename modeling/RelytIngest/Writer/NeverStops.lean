import RelytIngest.Writer.InOrder
import RelytIngest.Writer.NoStrandedWaiter
import RelytIngest.Writer.StagedContent
import RelytIngest.Writer.ToldErrors
import RelytIngest.Writer.VettedRows

/-!
# A writer does not stop by itself

A stage stops the writer when it rejects a file, when the order tripwire fires or when it finds the
writer fenced. The rows of an opened table can always be rendered, so a failure of the render stage
is a lost task, which is tried again; the files reach the put stage in order. A writer of an opened
table that nobody takes over therefore keeps running, whatever storage does (`never_stops`): its
stages turn, and its callers are told of no stop.
-/

set_option autoImplicit false
set_option relaxedAutoImplicit false

namespace RelytIngest

open Foundations Relation

namespace Progress

/-- What keeps failing is tried again. -/
def Retried (p : Progress) : Prop :=
  ∀ f, p.failing = some f → f.kind = .stage ∧ f.permanent = false ∧ f.cause = none

section Retried

variable {p : Progress} (h : p.Retried)
include h

theorem Retried.clearFailure (seq : Int) : (p.clearFailure seq).Retried := by
  intro f hf
  unfold Progress.clearFailure at hf
  split at hf
  · simp at hf
  · exact h f hf

theorem Retried.land (seq : Int) : (p.land seq).Retried := by
  intro f hf
  simp only [Progress.land] at hf
  split at hf
  · simp at hf
  · exact h f hf

theorem Retried.reportFailure (seq : Int) (stage : String) (attempt : Nat) (err : Error) :
    (p.reportFailure seq stage attempt false err).Retried := by
  intro f hf
  unfold Progress.reportFailure at hf
  split at hf
  · exact h f hf
  · obtain rfl := Option.some.inj hf
    exact ⟨rfl, rfl, rfl⟩

/-- A waiter is told of a stall at most. -/
theorem Retried.stallError {attempts : Nat} {target : Int} {err : Error}
    (hstalled : p.stallError attempts target = some err) : err.isStagingStalled = true := by
  unfold Progress.stallError at hstalled
  split at hstalled
  · simp at hstalled
  · next f hf =>
    obtain ⟨hkind, -, hcause⟩ := h f hf
    split_ifs at hstalled
    obtain rfl := Option.some.inj hstalled
    simp only [terminalError, hkind, hcause, Error.isStagingStalled]

end Retried

end Progress

theorem Error.saysStopped_of_isStagingStalled {err : Error} (h : err.isStagingStalled = true) :
    err.saysStopped = false := by
  cases err <;> first | rfl | simp [Error.isStagingStalled] at h

/-! ### The watch of a running writer -/

namespace Watch

variable {failure : Option (Int × Error)} {v v' : Watch}

/-- Every stage turns, and what keeps failing is tried again. -/
structure Running (v : Watch) : Prop where
  fenced : v.fenced = false
  inOrder : v.outOfOrder = false
  stages : ∀ stage, v.stages stage = .working
  closed : v.closed = false
  retried : v.progress.Retried

theorem Running.not_ended (h : v.Running) : ¬ v.Ended :=
  fun ⟨stage, hended⟩ ↦ StageStatus.noConfusion ((h.stages stage).symm.trans hended)

/-- A failure that can be tried again stops nothing. -/
theorem Running.move (h : v.Running) (hmove : Move failure false v v')
    (hordered : v'.outOfOrder = false)
    (htransient : ∀ seq err, failure = some (seq, err) → err.isPermanent = false) : v'.Running := by
  cases hmove with
  | fence hfence => simp at hfence
  | violate | confirm | announce => exact { h with }
  | pass seq => exact { h with retried := h.retried.clearFailure seq }
  | land seq => exact { h with retried := h.retried.land seq }
  | fail stage attempt seq err hfailure =>
    have herr := htransient seq err hfailure
    simp only [herr, Bool.false_eq_true, if_false]
    exact { h with retried := h.retried.reportFailure seq stage.label attempt err }
  | giveUp stage seq cause last hrejected =>
    exact StageStatus.noConfusion ((h.stages stage).symm.trans hrejected)
  | drop stage reason hfenced => simp [h.fenced] at hfenced
  | trip stage detail => simp at hordered
  | follow stage hended => exact absurd hended h.not_ended
  | close hended => exact absurd hended h.not_ended
  | leave => exact { h with closed := rfl }
  | gone hclosed => simp [h.closed] at hclosed

end Watch

namespace Writer

section Healthy

variable {β : Type} {cfg : WriterConfig β} {w : Writer β}

/-- Storage rejects no file for its rows or its schema. -/
def retriable : Action β → Bool
  | .putEnds trial =>
    match trial.result with
    | .ok () => true
    | .error err => !err.isPermanent
  | _ => true

/-- It rejects none, and nobody takes the writer over. -/
def undisturbed (action : Action β) : Bool :=
  !isFence action && retriable action

theorem retriable_of_undisturbed {action : Action β} (h : undisturbed action = true) :
    retriable action = true :=
  (Bool.and_eq_true_iff.mp h).2

theorem isFence_of_undisturbed {action : Action β} (h : undisturbed action = true) :
    isFence action = false := by
  simpa using (Bool.and_eq_true_iff.mp h).1

theorem isSome_eq_false {α : Type} {value : Option α} (h : value.isSome = false) : value = none :=
  Option.not_isSome_iff_eq_none.mp (by simp [h])

/-- A running writer is out of order for nobody and has no stop to tell but a contract violation. -/
theorem fatalState_of_running (h : w.watch.Running) {err : Error}
    (hfatal : w.fatalState cfg = some err) :
    ∃ message, w.health.serialFatal = some message ∧ err = .serialContractViolation message := by
  have horder := isSome_eq_false h.inOrder
  have hfenced := isSome_eq_false h.fenced
  cases hserial : w.health.serialFatal with
  | some message =>
    simp only [fatalState, horder, hfenced, hserial, Option.some.injEq] at hfatal
    exact ⟨message, rfl, hfatal.symm⟩
  | none =>
    simp only [fatalState, horder, hfenced, hserial] at hfatal
    split at hfatal
    · next hstalled =>
      exact absurd (h.retried.stallError hstalled) (by simp [Error.isStagingStalled])
    · simp at hfatal

theorem healthy_of_running (h : w.watch.Running) : w.Healthy cfg where
  fatal err hfatal := by
    obtain ⟨message, -, rfl⟩ := fatalState_of_running h hfatal
    rfl
  stalled target err hstalled :=
    Error.saysStopped_of_isStagingStalled (h.retried.stallError hstalled)
  held holder hlock := by
    have hclosed := h.closed
    simp [watch, hlock] at hclosed

end Healthy

/-- What a running writer does and tells its callers. -/
structure KeepsRunning (cfg : WriterConfig RecordBatch) (w : Writer RecordBatch) : Prop where
  /-- No stage has ended, and none has given up on a file. -/
  stages : ∀ stage, w.pipe.statuses stage = .working
  inOrder : w.health.orderFatal = none
  /-- Only the server's answer stops the stream. -/
  fatal : ∀ err, w.fatalState cfg = some err →
    ∃ message, w.health.serialFatal = some message ∧ err = .serialContractViolation message
  /-- Whoever waits is told at most that a file is still being retried. -/
  stalled : ∀ target err, w.progress.stallError cfg.stagingErrorAfterAttempts target = some err →
    err.isStagingStalled = true
  /-- No append, flush or close returned that the writer has stopped. -/
  untold : w.Untold

section Runs

variable {schema : OpenedSchema} {cfg : WriterConfig RecordBatch} {w w' : Writer RecordBatch}
  {epochMs : Nat} {stagedOffset resumePersisted : Option Int}

/-- The failures of the stages can be tried again. -/
theorem ReachableFrom.transient (hwrites : schema.Writes cfg)
    (hgzip : ∀ body err, cfg.gzip body = .error err → err.isPermanent = false)
    (hreach : ReachableFrom cfg epochMs stagedOffset resumePersisted w)
    {action : Action RecordBatch} (hretriable : retriable action = true) {seq : Int}
    {err : Error} (hfailure : w.failure cfg action = some (seq, err)) :
    err.isPermanent = false := by
  have hjoined {α : Type} {joinError : Option String} {task : String} {result : Except Error α}
      (hresult : joined joinError task result = .error err)
      (hown : result = .error err → err.isPermanent = false) : err.isPermanent = false := by
    cases joinError with
    | none => exact hown hresult
    | some message => exact Except.error.inj hresult ▸ rfl
  cases action with
  | renderEnds joinError =>
    simp only [failure] at hfailure
    split at hfailure
    · next file failures hrender =>
      split at hfailure
      · next hresult =>
        obtain ⟨-, rfl⟩ := Prod.mk.inj (Option.some.inj hfailure)
        refine hjoined hresult fun hown ↦ ?_
        have hheld := hreach.carries.render
        rw [hrender] at hheld
        obtain ⟨cut, hcut, rfl⟩ := hheld
        obtain ⟨body, rows, hok⟩ := hreach.cut_renders hwrites hcut
        simp [hok] at hown
      · simp at hfailure
    · simp at hfailure
  | gzipEnds joinError =>
    simp only [failure] at hfailure
    split at hfailure
    · split at hfailure
      · next hresult =>
        obtain ⟨-, rfl⟩ := Prod.mk.inj (Option.some.inj hfailure)
        exact hjoined hresult (hgzip _ _)
      · simp at hfailure
    · simp at hfailure
  | putEnds trial =>
    simp only [failure] at hfailure
    split at hfailure
    · split at hfailure
      · next hresult =>
        obtain ⟨-, rfl⟩ := Prod.mk.inj (Option.some.inj hfailure)
        simpa [retriable, hresult] using hretriable
      · simp at hfailure
    · simp at hfailure
  | _ => simp [failure] at hfailure

theorem running_new :
    (new epochMs stagedOffset resumePersisted : Writer RecordBatch).watch.Running where
  fenced := rfl
  inOrder := rfl
  stages stage := by cases stage <;> rfl
  closed := rfl
  retried f hf := by simp [watch, new, Progress.initial] at hf

/-- A running writer keeps running in every step that leaves it undisturbed. -/
theorem running_step (hwrites : schema.Writes cfg)
    (hgzip : ∀ body err, cfg.gzip body = .error err → err.isPermanent = false)
    (hreach : ReachableFrom cfg epochMs stagedOffset resumePersisted w) (h : w.watch.Running)
    {action : Action RecordBatch} (hundisturbed : undisturbed action = true)
    (hstep : w.step cfg action = some w') : w'.watch.Running := by
  have hafter : ReachableFrom cfg epochMs stagedOffset resumePersisted w' := hreach.snoc hstep
  rcases (reflGen_iff ..).mp (watch_step hreach.lineOrdered hstep) with hsame | hmove
  · exact hsame ▸ h
  · rw [isFence_of_undisturbed hundisturbed] at hmove
    refine h.move hmove ?_ fun seq err ↦
      hreach.transient hwrites hgzip (retriable_of_undisturbed hundisturbed)
    simp [watch, (order_never_trips hafter).1]

theorem running_of_undisturbed (hwrites : schema.Writes cfg)
    (hgzip : ∀ body err, cfg.gzip body = .error err → err.isPermanent = false)
    (hreach : ReachableUnder (step cfg) (fun _ action ↦ undisturbed action = true)
      (new epochMs stagedOffset resumePersisted) w) : w.watch.Running ∧ w.Untold := by
  refine hreach.strengthened (fun w ↦ w.watch.Running ∧ w.Untold) ⟨running_new, .new _ _ _⟩ ?_
  intro before action after hbefore h hundisturbed hstep
  exact ⟨running_step hwrites hgzip hbefore.reachable h.1 hundisturbed hstep,
    h.2.step (healthy_of_running h.1) hstep⟩

/-- As long as nobody takes it over, a writer of an opened table does not stop by itself: whatever
storage does, its stages keep turning and no caller is told that it has stopped. -/
theorem never_stops (hwrites : schema.Writes cfg)
    (hgzip : ∀ body err, cfg.gzip body = .error err → err.isPermanent = false)
    (hreach : ReachableUnder (step cfg) (fun _ action ↦ undisturbed action = true)
      (new epochMs stagedOffset resumePersisted) w) : KeepsRunning cfg w := by
  obtain ⟨hrunning, huntold⟩ := running_of_undisturbed hwrites hgzip hreach
  exact {
    stages := hrunning.stages
    inOrder := (order_never_trips hreach.reachable).1
    fatal := fun err ↦ fatalState_of_running hrunning
    stalled := fun target err ↦ hrunning.retried.stallError
    untold := huntold }

end Runs

/-- The table that `sampleConfig` writes, opened. -/
def sampleTextOpened : OpenedSchema where
  toTableSchema := sampleTextKey.toTableSchema
  upsert := true
  columns := List.cons_ne_nil _ _
  opened := by decide

theorem sampleTextOpened_writes : sampleTextOpened.Writes sampleConfig :=
  sampleTextOpened.writes_ofTable _ _ _ rfl

/-- A flush waits for a file whose put failed three times. -/
def putFailing : Writer RecordBatch :=
  (run (restrict (step sampleConfig) fun _ action ↦ undisturbed action = true) (new 1 none none)
    (sampleAppend 0 9 ++ [.flushCall 0 false, .tryLock (.flush 0) false] ++
      List.replicate 5 (.handOver 0) ++ [.receive .render, .attempt .render,
        .renderEnds (some "cancelled"), .attempt .render, .renderEnds none, .calibrate,
        .send .render, .receive .gzip, .send .gzip, .receive .put, .order] ++
      samplePutFails)).getD (new 1 none none)

theorem putFailing_reachable : ReachableUnder (step sampleConfig)
    (fun _ action ↦ undisturbed action = true) (new 1 none none) putFailing :=
  reachableUnder_getD_of_restrict .refl (by decide +kernel)

theorem never_stops_putFailing :
    putFailing.progress.failing.map Failing.attempts = some 3 ∧ KeepsRunning sampleConfig putFailing :=
  ⟨by decide +kernel, never_stops sampleTextOpened_writes
    (by simp [sampleConfig, WriterConfig.ofTable]) putFailing_reachable⟩

end Writer

end RelytIngest
