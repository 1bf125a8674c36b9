import RelytIngest.Error
import Mathlib.Algebra.Group.Int.Defs

/-!
# Pipeline progress

`Progress` is the value of the watch channel through which the stage tasks of a rotation pipeline
tell `append`, `flush` and `close` what is durable and where the pipeline is stuck. Every update of
the channel is one function here. A terminal entry in the failing slot stays there: no update
overwrites or clears it.
-/

set_option autoImplicit false
set_option relaxedAutoImplicit false

namespace RelytIngest

/-- The kind of a failure, which decides the error a waiter gets. -/
inductive FailKind
  /-- A stage keeps failing on the file. -/
  | stage
  | pipelineGone
  | fenced
  | orderViolation
  /-- A stage gave up on a file whose data or schema was rejected. -/
  | rotation
  deriving DecidableEq, Repr

/-- `is_terminal`: the entry records a stopped writer, not a file still being retried. -/
def FailKind.isTerminal : FailKind → Bool
  | stage => false
  | pipelineGone | fenced | orderViolation | rotation => true

/-- The failing slot of the progress channel. -/
structure Failing where
  /-- The failing file; the smallest 64-bit number in a terminal entry. -/
  seq : Int
  stage : String
  attempts : Nat
  permanent : Bool
  cause : Option Error
  kind : FailKind
  last : String
  deriving DecidableEq, Repr

structure Progress where
  /-- serial_seq of the newest durable file. -/
  durableSeq : Option Int
  failing : Option Failing
  deriving DecidableEq, Repr

/-- `terminal_error`: the error an entry stands for, once it qualifies. -/
def terminalError (f : Failing) : Error :=
  match f.kind with
  | .stage =>
    match f.cause with
    | some cause => .rotationFailed f.stage cause
    | none => .stagingStalled f.attempts f.last
  | .pipelineGone => .writerClosed
  | .fenced => .writerFenced f.last
  | .orderViolation => .stagingOrderViolation f.last
  | .rotation => .rotationFailed f.stage (f.cause.getD (.config f.last))

namespace Progress

/-- The value of a new channel. -/
def initial : Progress := ⟨none, none⟩

/-- A terminal entry is in the slot. -/
def terminal (p : Progress) : Bool := p.failing.any fun f ↦ f.kind.isTerminal

/-- The entry a stopped writer leaves. -/
def terminalEntry (kind : FailKind) (stage : String) (cause : Option Error) (last : String) :
    Failing where
  seq := -2 ^ 63
  stage := stage
  attempts := 0
  permanent := true
  cause := cause
  kind := kind
  last := last

/-- `publish_terminal`. -/
def publishTerminal (p : Progress) (kind : FailKind) (stage : String) (cause : Option Error)
    (last : String) : Progress :=
  if p.terminal then p else { p with failing := some (terminalEntry kind stage cause last) }

/-- `pipeline_gone`: the error for the caller and the updated channel. -/
def pipelineGone (p : Progress) : Error × Progress :=
  match p.failing with
  | some f =>
    if f.kind.isTerminal then (terminalError f, p)
    else (.writerClosed, p.publishTerminal .pipelineGone "pipeline" none "rotation pipeline is gone")
  | none =>
    (.writerClosed, p.publishTerminal .pipelineGone "pipeline" none "rotation pipeline is gone")

/-- A later file's failure must not hide the file at the head of the pipeline. -/
def hides (p : Progress) (seq : Int) : Bool :=
  p.failing.any fun f ↦ f.kind.isTerminal || decide (f.seq < seq)

/-- `report_failure`. -/
def reportFailure (p : Progress) (seq : Int) (stage : String) (attempt : Nat) (permanent : Bool)
    (err : Error) : Progress :=
  if p.hides seq then p
  else
    { p with
      failing := some {
        seq := seq
        stage := stage
        attempts := attempt
        permanent := permanent
        cause := if permanent then some err.clone else none
        kind := .stage
        last := stage ++ ": " ++ err.toText } }

/-- `clear_failure`: the file that was failing got past its stage. -/
def clearFailure (p : Progress) (seq : Int) : Progress :=
  if p.failing.any fun f ↦ decide (f.seq = seq) then { p with failing := none } else p

/-- `land`: the file is durable, and a stage failure it caught up with is cleared. -/
def land (p : Progress) (seq : Int) : Progress where
  durableSeq := some seq
  failing :=
    if p.failing.any fun f ↦ !f.kind.isTerminal && decide (f.seq ≤ seq) then none else p.failing

/-- `stall_error`: what a waiter on `target` is owed once the pipeline is stuck. -/
def stallError (stagingErrorAfterAttempts : Nat) (p : Progress) (target : Int) : Option Error :=
  match p.failing with
  | none => none
  | some f =>
    if target < f.seq ∨ ¬(f.permanent ∨ stagingErrorAfterAttempts ≤ f.attempts) then none
    else some (terminalError f)

/-! ### Only a landing moves the durable seq -/

section DurableSeq

variable (p : Progress)

@[simp] theorem publishTerminal_durableSeq (kind : FailKind) (stage : String)
    (cause : Option Error) (last : String) :
    (p.publishTerminal kind stage cause last).durableSeq = p.durableSeq := by
  unfold publishTerminal
  split <;> rfl

@[simp] theorem pipelineGone_durableSeq : p.pipelineGone.2.durableSeq = p.durableSeq := by
  unfold pipelineGone
  split
  · split
    · rfl
    · exact publishTerminal_durableSeq ..
  · exact publishTerminal_durableSeq ..

@[simp] theorem reportFailure_durableSeq (seq : Int) (stage : String) (attempt : Nat)
    (permanent : Bool) (err : Error) :
    (p.reportFailure seq stage attempt permanent err).durableSeq = p.durableSeq := by
  unfold reportFailure
  split <;> rfl

@[simp] theorem clearFailure_durableSeq (seq : Int) :
    (p.clearFailure seq).durableSeq = p.durableSeq := by
  unfold clearFailure
  split <;> rfl

@[simp] theorem land_durableSeq (seq : Int) : (p.land seq).durableSeq = some seq := rfl

end DurableSeq

/-! ### Terminal entries stay -/

section Terminal

variable {p : Progress} (hterminal : p.terminal)
include hterminal

theorem publishTerminal_of_terminal (kind : FailKind) (stage : String) (cause : Option Error)
    (last : String) : p.publishTerminal kind stage cause last = p :=
  if_pos hterminal

theorem reportFailure_of_terminal (seq : Int) (stage : String) (attempt : Nat) (permanent : Bool)
    (err : Error) : p.reportFailure seq stage attempt permanent err = p := by
  refine if_pos ?_
  obtain ⟨f, hf, hkind⟩ := (Option.any_eq_true _ _).mp hterminal
  simp [hides, hf, hkind]

theorem land_failing_of_terminal (seq : Int) : (p.land seq).failing = p.failing := by
  refine if_neg ?_
  obtain ⟨f, hf, hkind⟩ := (Option.any_eq_true _ _).mp hterminal
  simp [hf, hkind]

theorem pipelineGone_of_terminal : p.pipelineGone.2 = p := by
  obtain ⟨f, hf, hkind⟩ := (Option.any_eq_true _ _).mp hterminal
  simp [pipelineGone, hf, hkind]

end Terminal

/-- What an entry that stopped the writer looks like: it is behind no target, and permanent. -/
def WellFormed (p : Progress) : Prop :=
  ∀ f, p.failing = some f → f.kind.isTerminal → f.seq = -2 ^ 63 ∧ f.permanent = true

section WellFormed

variable {p : Progress} (h : p.WellFormed)
include h

/-- No file's success clears a terminal entry. -/
theorem WellFormed.clearFailure_failing {f : Failing} {seq : Int} (hseq : 0 ≤ seq)
    (hf : p.failing = some f) (hterminal : f.kind.isTerminal) :
    (p.clearFailure seq).failing = some f := by
  have hother : f.seq ≠ seq := by
    have := (h f hf hterminal).1
    omega
  simp [clearFailure, hf, hother]

theorem WellFormed.publishTerminal (kind : FailKind) (stage : String) (cause : Option Error)
    (last : String) : (p.publishTerminal kind stage cause last).WellFormed := by
  intro f hf hterminal
  unfold Progress.publishTerminal at hf
  split at hf
  · exact h f hf hterminal
  · exact Option.some.inj hf ▸ ⟨rfl, rfl⟩

theorem WellFormed.pipelineGone : p.pipelineGone.2.WellFormed := by
  unfold Progress.pipelineGone
  split
  · split
    · exact h
    · exact h.publishTerminal _ _ _ _
  · exact h.publishTerminal _ _ _ _

theorem WellFormed.reportFailure (seq : Int) (stage : String) (attempt : Nat) (permanent : Bool)
    (err : Error) : (p.reportFailure seq stage attempt permanent err).WellFormed := by
  intro f hf hterminal
  unfold Progress.reportFailure at hf
  split at hf
  · exact h f hf hterminal
  · obtain rfl := Option.some.inj hf
    simp [FailKind.isTerminal] at hterminal

theorem WellFormed.clearFailure (seq : Int) : (p.clearFailure seq).WellFormed := by
  intro f hf hterminal
  unfold Progress.clearFailure at hf
  split at hf
  · simp at hf
  · exact h f hf hterminal

theorem WellFormed.land (seq : Int) : (p.land seq).WellFormed := by
  intro f hf hterminal
  simp only [Progress.land] at hf
  split at hf
  · simp at hf
  · exact h f hf hterminal

end WellFormed

theorem publishTerminal_terminal (p : Progress) {kind : FailKind} (hkind : kind.isTerminal)
    (stage : String) (cause : Option Error) (last : String) :
    (p.publishTerminal kind stage cause last).terminal := by
  unfold publishTerminal
  split
  · next hterminal => exact hterminal
  · simp [terminal, terminalEntry, hkind]

/-- A caller that finds the pipeline gone leaves a terminal entry. -/
theorem pipelineGone_terminal (p : Progress) : p.pipelineGone.2.terminal := by
  unfold pipelineGone
  split
  · next f hf =>
    split
    · next hterminal => simp [terminal, hf, hterminal]
    · exact p.publishTerminal_terminal rfl _ _ _
  · exact p.publishTerminal_terminal rfl _ _ _

/-- A terminal entry stalls every waiter. -/
theorem WellFormed.stallError {p : Progress} {f : Failing} {target : Int} (h : p.WellFormed)
    (attempts : Nat) (hf : p.failing = some f) (hterminal : f.kind.isTerminal)
    (htarget : -2 ^ 63 ≤ target) : p.stallError attempts target = some (terminalError f) := by
  obtain ⟨hseq, hpermanent⟩ := h f hf hterminal
  have hbehind : ¬ target < f.seq := by omega
  simp [Progress.stallError, hf, hbehind, hpermanent]

end Progress

end RelytIngest
