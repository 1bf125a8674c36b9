import RelytIngest.Foundations.LabelledRun
import RelytIngest.Lease.LockFile
import Mathlib.Logic.Function.Basic

/-!
# Sessions that compete for a lease

Any number of sessions, each with a uuid of its own, read, write and delete one lock object. A
session is the task of its caller (`open_table`, then the writer up to `close`) and its heartbeat
task; `Session.next` is one step of one of them, up to and including its next storage call, and says
what that call does to the lock object (`Effect`). `Lease.step` applies it.

The clock counts steps: it is not in the source and only dates the reads, writes and acquisitions.
-/

set_option autoImplicit false
set_option relaxedAutoImplicit false

namespace RelytIngest

open Foundations

/-- How a storage call that changes the lock object ends. -/
inductive Outcome
  | done
  /-- It took effect, and the caller got an error. -/
  | unacknowledged (err : Error)
  | refused (err : Error)
  deriving DecidableEq, Repr

/-- The call took effect. -/
def Outcome.takesEffect : Outcome → Bool
  | .done | .unacknowledged _ => true
  | .refused _ => false

/-- What the caller gets. -/
def Outcome.result : Outcome → Except Error Unit
  | .done => .ok ()
  | .unacknowledged err | .refused err => .error err

/-- What a step does to the lock object. -/
inductive Effect
  | keep
  | write (lock : LockFile)
  | delete
  deriving DecidableEq, Repr

def Effect.apply : Effect → Option LockFile → Option LockFile
  | .keep, lock => lock
  | .write lock, _ => some lock
  | .delete, _ => none

/-- The effect of a call, if it takes effect. -/
def Outcome.effect (outcome : Outcome) (effect : Effect) : Effect :=
  if outcome.takesEffect then effect else .keep

/-- Where the caller of a session is. -/
inductive Caller
  | idle
  /-- In the loop of `acquire_writer_lease`. -/
  | acquiring
  | claiming
  /-- Before the read-back. -/
  | settling
  /-- In `open_table_locked`. -/
  | opening
  /-- The open failed: about to read the lock for its release, or to delete it. -/
  | abandoning (err : Error)
  | retracting (err : Error)
  | failed (err : Error)
  | running
  /-- `close` has sent the stop permit and waits for the heartbeat. -/
  | joining
  /-- In `release_lease`, about to read, or to delete what it read at `readAt`. -/
  | releasing (attempt : Nat) (joined : Bool)
  | deleting (attempt : Nat) (joined : Bool) (readAt : Nat)
  | closed (joined released : Bool)
  | dropped
  deriving DecidableEq, Repr

/-- Where the heartbeat task of a session is. -/
inductive Beat
  | unborn
  /-- At its select. -/
  | waiting
  | reading
  /-- About to write back what it read at `readAt`. -/
  | renewing (lock : LockFile) (readAt : Nat)
  /-- The writer was dropped: about to read, or to delete. -/
  | dropReading
  | dropDeleting
  | ended
  deriving DecidableEq, Repr

structure Session where
  caller : Caller
  beat : Beat
  sinceBeatMs : Nat
  lastVerifiedMs : Nat
  /-- The permit of `heartbeat_stop`. -/
  stopPermit : Bool
  fenced : Option String
  /-- When `acquire_writer_lease` returned `Ok`. -/
  acquiredAt : Option Nat
  /-- When the last finished heartbeat iteration whose read was answered made that read. -/
  checkedAt : Option Nat
  deriving DecidableEq, Repr

/-- A step of a session. A read that fails carries its error; instants are of the session's
monotonic clock. -/
inductive LeaseCall
  | openTable
  | acquireRead (fails : Option Error) (view : HostView) (waitedMs : Nat)
  | acquireWrite (outcome : Outcome) (view : HostView)
  | acquireReadBack (fails : Option Error) (view : HostView)
  | openReturns (result : Except Error Unit) (nowMs : Nat)
  | abandonRead (fails : Option Error)
  | abandonDelete (outcome : Outcome)
  | wake
  | beatRead (fails : Option Error) (view : HostView) (nowMs : Nat)
  | beatWrite (outcome : Outcome) (view : HostView) (nowMs : Nat)
  | dropRead (fails : Option Error)
  | dropDelete (outcome : Outcome)
  | drop
  | closeStop
  | closeJoin (timedOut : Bool)
  | releaseRead (fails : Option Error)
  | releaseDelete (outcome : Outcome)

namespace Session

variable (cfg : LeaseConfig) (me : String) (clock : Nat) (lock : Option LockFile)

def initial : Session := ⟨.idle, .unborn, 0, 0, false, none, none, none⟩

/-- `WriterInner::fence`. -/
def fence (session : Session) (reason : String) : Session :=
  { session with fenced := session.fenced <|> some reason }

/-! ### The caller -/

/-- A read of the loop of `acquire_writer_lease`. -/
def acquireRead (session : Session) (fails : Option Error) (view : HostView) (waitedMs : Nat) :
    Option Session :=
  match session.caller with
  | .acquiring =>
    some <|
      match fails with
      | some err => { session with caller := .failed err }
      | none =>
        match acquireVerdict cfg me view waitedMs lock with
        | .claim => { session with caller := .claiming }
        | .wait => session
        | .refuse err => { session with caller := .failed err }
  | _ => none

/-- The write of `acquire_writer_lease`. -/
def acquireWrite (session : Session) (outcome : Outcome) (view : HostView) :
    Option (Session × Effect) :=
  match session.caller with
  | .claiming =>
    let caller := match outcome.result with
      | .ok () => Caller.settling
      | .error err => .failed err
    some ({ session with caller := caller }, outcome.effect (.write (.new me view)))
  | _ => none

/-- The read-back of `acquire_writer_lease`, which then returns. -/
def acquireReadBack (session : Session) (fails : Option Error) (view : HostView) :
    Option Session :=
  match session.caller with
  | .settling =>
    some <|
      match fails with
      | some err => { session with caller := .failed err }
      | none =>
        match readBack cfg me view lock with
        | .ok () => { session with caller := .opening, acquiredAt := some clock }
        | .error err => { session with caller := .failed err }
  | _ => none

/-- `open_table_locked` returns: a writer starts its heartbeat, a failed open releases its lease. -/
def openReturns (session : Session) (result : Except Error Unit) (nowMs : Nat) : Option Session :=
  match session.caller with
  | .opening =>
    some <|
      match result with
      | .ok () =>
        { session with
          caller := .running
          beat := .waiting
          sinceBeatMs := cfg.lockHeartbeatIntervalMs
          lastVerifiedMs := nowMs }
      | .error err => { session with caller := .abandoning err }
  | _ => none

/-- A failed open looks whether the lock is its own. -/
def abandonRead (session : Session) (fails : Option Error) : Option Session :=
  match session.caller with
  | .abandoning err =>
    some { session with
      caller := if fails.isNone && ownedBy me lock then .retracting err else .failed err }
  | _ => none

def abandonDelete (session : Session) (outcome : Outcome) : Option (Session × Effect) :=
  match session.caller with
  | .retracting err => some ({ session with caller := .failed err }, outcome.effect .delete)
  | _ => none

/-- The writer is dropped without a close, or by a close that returned an error. -/
def drop (session : Session) : Option Session :=
  match session.caller with
  | .running => some { session with caller := .dropped }
  | _ => none

/-- `stop_heartbeat` stores the permit. -/
def closeStop (session : Session) : Option Session :=
  match session.caller with
  | .running => some { session with caller := .joining, stopPermit := true }
  | _ => none

/-- `stop_heartbeat` has waited for the task to end, or for thirty seconds. -/
def closeJoin (session : Session) (timedOut : Bool) : Option Session :=
  match session.caller with
  | .joining =>
    if timedOut || session.beat = .ended then
      some { session with caller := .releasing 1 (!timedOut) }
    else none
  | _ => none

/-- The end of an attempt of `release_lease` that got an error. -/
def retryRelease (attempt : Nat) (joined : Bool) : Caller :=
  if attempt < 3 then .releasing (attempt + 1) joined else .closed joined false

/-- The read of an attempt of `release_lease`. -/
def releaseRead (session : Session) (fails : Option Error) : Option Session :=
  match session.caller with
  | .releasing attempt joined =>
    some { session with
      caller :=
        if fails.isSome then retryRelease attempt joined
        else if ownedBy me lock then .deleting attempt joined clock
        else .closed joined true }
  | _ => none

/-- The delete of an attempt of `release_lease`. -/
def releaseDelete (session : Session) (outcome : Outcome) : Option (Session × Effect) :=
  match session.caller with
  | .deleting attempt joined _ =>
    let caller := match outcome.result with
      | .ok () => Caller.closed joined true
      | .error _ => retryRelease attempt joined
    some ({ session with caller := caller }, outcome.effect .delete)
  | _ => none

/-! ### The heartbeat -/

/-- The period of the heartbeat's ticks. -/
def tickMs (cfg : LeaseConfig) : Nat := min 2000 cfg.lockHeartbeatIntervalMs

/-- No one holds the writer any more. -/
def writerGone (session : Session) : Bool := session.caller matches .dropped | .closed _ _

/-- The select returns, the stop permit first. A tick may find the writer dropped, or the time for a
renewal not yet come. -/
def wake (session : Session) : Option Session :=
  match session.beat with
  | .waiting =>
    some <|
      if session.stopPermit then { session with beat := .ended, stopPermit := false }
      else if session.writerGone then { session with beat := .dropReading }
      else
        let sinceBeatMs := session.sinceBeatMs + tickMs cfg
        { session with
          sinceBeatMs := sinceBeatMs
          beat := if sinceBeatMs < cfg.lockHeartbeatIntervalMs then .waiting else .reading }
  | _ => none

/-- The time since the lease was last verified is a whole lease. -/
def unverified (session : Session) (nowMs : Nat) : Bool :=
  decide (cfg.lockLeaseTimeoutMs ≤ nowMs - session.lastVerifiedMs)

/-- The read of a heartbeat iteration. -/
def beatRead (session : Session) (fails : Option Error) (view : HostView) (nowMs : Nat) :
    Option Session :=
  match session.beat with
  | .reading =>
    some <|
      match fails with
      | some _ =>
        if session.unverified cfg nowMs then
          { session with beat := .ended }.fence (verifyReason cfg)
        else { session with beat := .waiting }
      | none =>
        match beatVerdict cfg me view lock with
        | .renew l => { session with beat := .renewing l clock }
        | .fence reason => { session with beat := .ended, checkedAt := some clock }.fence reason
  | _ => none

/-- The write of a heartbeat iteration. -/
def beatWrite (session : Session) (outcome : Outcome) (view : HostView) (nowMs : Nat) :
    Option (Session × Effect) :=
  match session.beat with
  | .renewing l readAt =>
    let checked := { session with beat := .waiting, checkedAt := some readAt }
    let next := match outcome.result with
      | .ok () => { checked with lastVerifiedMs := nowMs, sinceBeatMs := 0 }
      | .error _ =>
        if session.unverified cfg nowMs then { checked with beat := .ended }.fence (renewReason cfg)
        else checked
    some (next, outcome.effect (.write { l with heartbeatAtMs := view.nowMs }))
  | _ => none

/-- The heartbeat of a dropped writer looks whether the lock is its own. -/
def dropRead (session : Session) (fails : Option Error) : Option Session :=
  match session.beat with
  | .dropReading =>
    some { session with
      beat := if fails.isNone && ownedBy me lock then .dropDeleting else .ended }
  | _ => none

def dropDelete (session : Session) (outcome : Outcome) : Option (Session × Effect) :=
  match session.beat with
  | .dropDeleting => some ({ session with beat := .ended }, outcome.effect .delete)
  | _ => none

/-- A step that leaves the lock object as it is. -/
def keeping (next : Option Session) : Option (Session × Effect) :=
  next.map fun session ↦ (session, .keep)

/-- The session after a step, and what the step does to the lock object. -/
def next (session : Session) : LeaseCall → Option (Session × Effect)
  | .openTable =>
    match session.caller with
    | .idle => some ({ session with caller := .acquiring }, .keep)
    | _ => none
  | .acquireRead fails view waitedMs =>
    keeping (session.acquireRead cfg me lock fails view waitedMs)
  | .acquireWrite outcome view => session.acquireWrite me outcome view
  | .acquireReadBack fails view =>
    keeping (session.acquireReadBack cfg me clock lock fails view)
  | .openReturns result nowMs => keeping (session.openReturns cfg result nowMs)
  | .abandonRead fails => keeping (session.abandonRead me lock fails)
  | .abandonDelete outcome => session.abandonDelete outcome
  | .wake => keeping (session.wake cfg)
  | .beatRead fails view nowMs => keeping (session.beatRead cfg me clock lock fails view nowMs)
  | .beatWrite outcome view nowMs => session.beatWrite cfg outcome view nowMs
  | .dropRead fails => keeping (session.dropRead me lock fails)
  | .dropDelete outcome => session.dropDelete outcome
  | .drop => keeping session.drop
  | .closeStop => keeping session.closeStop
  | .closeJoin timedOut => keeping (session.closeJoin timedOut)
  | .releaseRead fails => keeping (session.releaseRead me clock lock fails)
  | .releaseDelete outcome => session.releaseDelete outcome

end Session

/-- The lock object and the sessions that compete for it, by their uuids. -/
structure Lease where
  lock : Option LockFile
  sessions : String → Session
  clock : Nat
  /-- Who wrote the lock object last, and when. -/
  lastWrite : Option (String × Nat)

/-- A step of the session with this uuid. -/
structure LeaseAction where
  session : String
  call : LeaseCall

namespace Lease

/-- No session has started; the lock object may be left over. -/
def start (lock : Option LockFile) : Lease := ⟨lock, fun _ ↦ .initial, 0, none⟩

/-- The state after a session's step. -/
def after (s : Lease) (uuid : String) (session : Session) (effect : Effect) : Lease where
  lock := effect.apply s.lock
  sessions := Function.update s.sessions uuid session
  clock := s.clock + 1
  lastWrite := match effect with
    | .write _ => some (uuid, s.clock)
    | .keep | .delete => s.lastWrite

def step (cfg : LeaseConfig) (s : Lease) (action : LeaseAction) : Option Lease :=
  ((s.sessions action.session).next cfg action.session s.clock s.lock action.call).map
    fun (session, effect) ↦ s.after action.session session effect

/-- A step of the lease is a step of one session. -/
theorem step_eq_some {cfg : LeaseConfig} {s s' : Lease} {action : LeaseAction}
    (hstep : step cfg s action = some s') :
    ∃ session effect,
      (s.sessions action.session).next cfg action.session s.clock s.lock action.call =
        some (session, effect) ∧ s' = s.after action.session session effect := by
  obtain ⟨⟨session, effect⟩, hnext, rfl⟩ := Option.map_eq_some_iff.mp hstep
  exact ⟨session, effect, hnext, rfl⟩

end Lease

end RelytIngest
