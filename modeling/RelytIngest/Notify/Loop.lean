import RelytIngest.Foundations.DecimalText
import Mathlib.Logic.Function.Basic

/-!
# The notify loop

One loop task announces the staged files of one writer: it takes a request from the writer's queue
(`receive`), connects when it has no connection, submits, and on a transient error retries the same
request. `turn` is one pass of the inner loop, with what the server would answer to a connection
attempt and to a submission given as a `Turn`. An accepted or idempotent answer is recorded as
confirmed; a contract violation is recorded as fatal and the request is dropped.

The board of confirmations and violations is shared by all writers and keyed by the serial group.
-/

set_option autoImplicit false
set_option relaxedAutoImplicit false

namespace RelytIngest

open Foundations

/-- One staged file to announce to the server. -/
structure NotifyRequest where
  serialGroup : Text
  /-- The Kafka offset the file ends at. -/
  endOffset : Int
  identifier : Text
  sourceUrl : Text
  target : Nat
  delimiter : Char
  upsert : Bool
  serialSeq : Int
  retryMax : Option Int
  deriving DecidableEq, Repr

inductive SubmitOutcome
  | accepted
  | idempotent
  | contractViolation (message : String)
  deriving DecidableEq, Repr

/-- The report board of the notify loops. -/
structure NotifyState where
  /-- Per group: the largest accepted serial seq and the end offset of that file. -/
  confirmed : Text → Option (Int × Int)
  /-- Per group: the first contract violation. -/
  fatal : Text → Option String

namespace NotifyState

/-- The board of a new notifier. -/
def empty : NotifyState where
  confirmed _ := none
  fatal _ := none

/-- Records an accepted request: the entry moves when the seq is not below it. -/
def confirm (board : NotifyState) (req : NotifyRequest) : NotifyState :=
  let slot := (board.confirmed req.serialGroup).getD (req.serialSeq, req.endOffset)
  let slot := if slot.1 ≤ req.serialSeq then (req.serialSeq, req.endOffset) else slot
  { board with confirmed := Function.update board.confirmed req.serialGroup (some slot) }

/-- Records a contract violation: the first one stays. -/
def violate (board : NotifyState) (req : NotifyRequest) (message : String) : NotifyState :=
  let entry := (board.fatal req.serialGroup).getD message
  { board with fatal := Function.update board.fatal req.serialGroup (some entry) }

/-- An accepted request at or above the recorded one becomes the entry of its group. -/
theorem confirm_confirmed {board : NotifyState} {req : NotifyRequest}
    (hle : ∀ entry, board.confirmed req.serialGroup = some entry → entry.1 ≤ req.serialSeq) :
    (board.confirm req).confirmed req.serialGroup = some (req.serialSeq, req.endOffset) := by
  simp only [confirm, Function.update_self]
  cases hentry : board.confirmed req.serialGroup with
  | none => simp
  | some entry => simp [hle entry hentry]

@[simp] theorem confirm_fatal (board : NotifyState) (req : NotifyRequest) :
    (board.confirm req).fatal = board.fatal := rfl

@[simp] theorem violate_confirmed (board : NotifyState) (req : NotifyRequest) (message : String) :
    (board.violate req message).confirmed = board.confirmed := rfl

theorem violate_fatal (board : NotifyState) (req : NotifyRequest) (message : String) :
    (board.violate req message).fatal req.serialGroup ≠ none := by
  simp [violate]

end NotifyState

/-- What the outside would answer in one turn: whether a connection attempt succeeds, and the answer
to a submission (a transport or server error, or an outcome). -/
structure Turn where
  connects : Bool
  answer : Except String SubmitOutcome
  deriving DecidableEq, Repr

/-- A loop task with its queue and the board it reports to. -/
structure NotifyLoop where
  client : Bool
  backoffMs : Nat
  /-- The request being retried. -/
  inHand : Option NotifyRequest
  rx : List NotifyRequest
  board : NotifyState

namespace NotifyLoop

/-- A new loop on a queue. -/
def spawn (board : NotifyState) (queue : List NotifyRequest) : NotifyLoop where
  client := false
  backoffMs := 200
  inHand := none
  rx := queue
  board := board

/-- `Notifier::enqueue`. -/
def enqueue (loop : NotifyLoop) (req : NotifyRequest) : NotifyLoop :=
  { loop with rx := loop.rx ++ [req] }

/-- `rx.recv()`: a request is taken when none is in hand, with a fresh backoff. -/
def receive (loop : NotifyLoop) : NotifyLoop :=
  match loop.inHand, loop.rx with
  | none, req :: rest => { loop with inHand := some req, rx := rest, backoffMs := 200 }
  | _, _ => loop

/-- The backoff after a failed attempt. -/
def nextBackoff (backoffMs : Nat) : Nat := min (backoffMs * 2) 30000

/-- The request a turn submits: the one in hand, once there is a connection. -/
def submission (loop : NotifyLoop) (t : Turn) : Option NotifyRequest :=
  if loop.client || t.connects then loop.inHand else none

/-- One pass of the inner loop over the request in hand. -/
def turn (loop : NotifyLoop) (t : Turn) : NotifyLoop :=
  match loop.inHand with
  | none => loop
  | some req =>
    if loop.client || t.connects then
      match t.answer with
      | .ok .accepted | .ok .idempotent =>
        { loop with client := true, inHand := none, board := loop.board.confirm req }
      | .ok (.contractViolation message) =>
        { loop with client := true, inHand := none, board := loop.board.violate req message }
      | .error _ => { loop with client := false, backoffMs := nextBackoff loop.backoffMs }
    else
      { loop with backoffMs := nextBackoff loop.backoffMs }

/-- The requests still to be settled, the one in hand first. -/
def pending (loop : NotifyLoop) : List NotifyRequest := loop.inHand.toList ++ loop.rx

@[simp] theorem receive_board (loop : NotifyLoop) : loop.receive.board = loop.board := by
  unfold receive
  split <;> rfl

@[simp] theorem receive_client (loop : NotifyLoop) : loop.receive.client = loop.client := by
  unfold receive
  split <;> rfl

@[simp] theorem receive_pending (loop : NotifyLoop) : loop.receive.pending = loop.pending := by
  unfold receive
  split
  · next hhand hqueue => simp [pending, hhand, hqueue]
  · rfl

@[simp] theorem enqueue_pending (loop : NotifyLoop) (req : NotifyRequest) :
    (loop.enqueue req).pending = loop.pending ++ [req] := by
  simp [pending, enqueue]

/-- After receiving, the request in hand is the first one pending. -/
theorem receive_inHand (loop : NotifyLoop) : loop.receive.inHand = loop.pending.head? := by
  unfold receive
  split
  · next hhand hqueue => simp [pending, hhand, hqueue]
  · next hnot =>
    cases hhand : loop.inHand with
    | some req => simp [pending, hhand]
    | none =>
      cases hqueue : loop.rx with
      | nil => simp [pending, hhand, hqueue]
      | cons req rest => exact (hnot req rest hhand hqueue).elim

theorem receive_rx (loop : NotifyLoop) : loop.receive.rx = loop.pending.tail := by
  have hpending := loop.receive_pending
  have hhand := loop.receive_inHand
  rw [← hpending, pending] at hhand ⊢
  cases hin : loop.receive.inHand with
  | some req => rfl
  | none =>
    rw [hin] at hhand
    cases hrx : loop.receive.rx with
    | nil => rfl
    | cons req rest => simp [hrx] at hhand

/-- What a turn does: nothing without a submission, else it settles the request in hand, drops it or
keeps it. -/
theorem turn_cases (loop : NotifyLoop) (t : Turn) :
    (loop.submission t = none ∧ (loop.turn t).pending = loop.pending ∧
        (loop.turn t).board = loop.board) ∨
      ∃ req, loop.submission t = some req ∧ loop.inHand = some req ∧
        (((t.answer = .ok .accepted ∨ t.answer = .ok .idempotent) ∧
            (loop.turn t).pending = loop.rx ∧ (loop.turn t).board = loop.board.confirm req) ∨
          (∃ message, t.answer = .ok (.contractViolation message) ∧
            (loop.turn t).pending = loop.rx ∧ (loop.turn t).client = true ∧
            (loop.turn t).board = loop.board.violate req message) ∨
          (∃ message, t.answer = .error message ∧ (loop.turn t).pending = loop.pending ∧
            (loop.turn t).board = loop.board)) := by
  cases hhand : loop.inHand with
  | none => simp [submission, turn, hhand]
  | some req =>
    by_cases hconnected : (loop.client || t.connects) = true
    · refine Or.inr ⟨req, by rw [submission, if_pos hconnected, hhand], rfl, ?_⟩
      match hanswer : t.answer with
      | .ok .accepted => simp [turn, hhand, hconnected, hanswer, pending]
      | .ok .idempotent => simp [turn, hhand, hconnected, hanswer, pending]
      | .ok (.contractViolation message) =>
        simp [turn, hhand, hconnected, hanswer, pending]
      | .error message => simp [turn, hhand, hconnected, hanswer, pending]
    · refine Or.inl ⟨by rw [submission, if_neg hconnected], ?_, ?_⟩ <;>
        simp [turn, hhand, hconnected, pending]

end NotifyLoop

end RelytIngest
