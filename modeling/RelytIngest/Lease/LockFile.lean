import RelytIngest.Error

/-!
# The writer lease lock

The lock object of a stream and what a process concludes from reading it: an acquirer
(`acquireVerdict`, `readBack`), the heartbeat of a holder (`beatVerdict`), and whoever is about to
release (`ownedBy`). A lock is recognised by its uuid alone; the rest is for its reader.
-/

set_option autoImplicit false
set_option relaxedAutoImplicit false

namespace RelytIngest

/-- Contents of the lock object. -/
structure LockFile where
  v : Nat
  instanceUuid : String
  pid : Nat
  host : String
  acquiredAtMs : Nat
  heartbeatAtMs : Nat
  deriving DecidableEq, Repr

/-- What a process sees of its machine: its clock, its host name, its pid, and whether the pid in
the lock is alive. -/
structure HostView where
  nowMs : Nat
  linux : Bool
  hostname : String
  pid : Nat
  holderAlive : Bool
  deriving DecidableEq, Repr

/-- The stream and the timing a lease is kept with. -/
structure LeaseConfig where
  lockKey : String
  lockLeaseTimeoutMs : Nat
  lockHeartbeatIntervalMs : Nat
  deriving DecidableEq, Repr

namespace LockFile

/-- `LOCK_VERSION`. -/
def version : Nat := 1

/-- `UNKNOWN_HOST`. -/
def unknownHost : String := "unknown-host"

def new (instanceUuid : String) (view : HostView) : LockFile where
  v := version
  instanceUuid := instanceUuid
  pid := view.pid
  host := view.hostname
  acquiredAtMs := view.nowMs
  heartbeatAtMs := view.nowMs

/-- The difference saturates: a holder clock ahead of ours must not look stale. -/
def isStale (lock : LockFile) (view : HostView) (leaseTimeoutMs : Nat) : Bool :=
  decide (leaseTimeoutMs < view.nowMs - lock.heartbeatAtMs)

def provablyDeadOnThisHost (lock : LockFile) (view : HostView) : Bool :=
  if !view.linux then false
  else if lock.host == unknownHost || lock.host != view.hostname then false
  else !view.holderAlive

def describe (lock : LockFile) (view : HostView) : String :=
  "held by " ++ lock.instanceUuid ++ " (pid " ++ toString lock.pid ++ ") on " ++ lock.host ++
    ", last heartbeat " ++ toString ((view.nowMs - lock.heartbeatAtMs) / 1000) ++ "s ago"

end LockFile

/-- The lock object carries this uuid. -/
def ownedBy (instanceUuid : String) (lock : Option LockFile) : Bool :=
  lock.any fun l ↦ l.instanceUuid == instanceUuid

theorem ownedBy_iff {instanceUuid : String} {lock : Option LockFile} :
    ownedBy instanceUuid lock ↔ ∃ l, lock = some l ∧ l.instanceUuid = instanceUuid := by
  simp [ownedBy, Option.any_eq_true]

@[simp] theorem ownedBy_none (instanceUuid : String) : ownedBy instanceUuid none = false := rfl

@[simp] theorem ownedBy_some (instanceUuid : String) (l : LockFile) :
    ownedBy instanceUuid (some l) = (l.instanceUuid == instanceUuid) := rfl

/-- What an acquirer does about the lock it read. -/
inductive AcquireVerdict
  | claim
  | wait
  | refuse (err : Error)
  deriving DecidableEq, Repr

variable (cfg : LeaseConfig)

/-- `ACQUIRE_WAIT`. -/
def acquireWaitMs : Nat := 10000

/-- The loop body of `acquire_writer_lease`. -/
def acquireVerdict (instanceUuid : String) (view : HostView) (waitedMs : Nat) :
    Option LockFile → AcquireVerdict
  | some cur =>
    let stale := cur.isStale view cfg.lockLeaseTimeoutMs
    if cur.instanceUuid != instanceUuid && !stale && cur.provablyDeadOnThisHost view then .claim
    else if cur.instanceUuid != instanceUuid && !stale then
      if acquireWaitMs ≤ waitedMs then
        .refuse (.writerLocked (cur.describe view ++ " at `" ++ cfg.lockKey ++ "`" ++
          " — another process is writing this (table, writer_id); stop it, or wait out the lease (" ++
          toString (cfg.lockLeaseTimeoutMs / 1000) ++
          "s), or delete the lock object after confirming the holder is dead"))
      else .wait
    else .claim
  | none => .claim

/-- The read-back after the settle delay: whoever finds its own uuid has the lease. -/
def readBack (instanceUuid : String) (view : HostView) : Option LockFile → Except Error Unit
  | some l =>
    if l.instanceUuid = instanceUuid then .ok ()
    else
      .error (.writerLocked ("lost the acquire race: " ++ l.describe view ++ " at `" ++
        cfg.lockKey ++ "`"))
  | none =>
    .error (.writerLocked ("lock at `" ++ cfg.lockKey ++
      "` vanished during acquire (concurrent force-release?); retry"))

theorem readBack_eq_ok {instanceUuid : String} {view : HostView} {lock : Option LockFile}
    (hread : readBack cfg instanceUuid view lock = .ok ()) : ownedBy instanceUuid lock := by
  cases lock with
  | none => simp [readBack] at hread
  | some l =>
    by_cases howner : l.instanceUuid = instanceUuid
    · simpa using howner
    · simp [readBack, howner] at hread

/-- What the heartbeat does about the lock it read. -/
inductive BeatVerdict
  | renew (lock : LockFile)
  | fence (reason : String)
  deriving DecidableEq, Repr

/-- The answered reads of `spawn_lock_heartbeat`. -/
def beatVerdict (instanceUuid : String) (view : HostView) : Option LockFile → BeatVerdict
  | some l =>
    if l.instanceUuid = instanceUuid then .renew l
    else
      .fence ("lease at `" ++ cfg.lockKey ++ "` is now " ++ l.describe view ++
        " — this writer was preempted and must stop (reopen the table to resume as the sole writer)")
  | none =>
    .fence ("lease at `" ++ cfg.lockKey ++ "` was deleted (operator force-release) — stopping")

/-- Only the holder of the lock renews it. -/
theorem beatVerdict_eq_renew {instanceUuid : String} {view : HostView} {lock : Option LockFile}
    {l : LockFile} (hverdict : beatVerdict cfg instanceUuid view lock = .renew l) :
    l.instanceUuid = instanceUuid ∧ ownedBy instanceUuid lock := by
  cases lock with
  | none => simp [beatVerdict] at hverdict
  | some found =>
    by_cases howner : found.instanceUuid = instanceUuid
    · simp only [beatVerdict, howner, if_true, BeatVerdict.renew.injEq] at hverdict
      exact ⟨hverdict ▸ howner, by simpa using howner⟩
    · simp [beatVerdict, howner] at hverdict

/-- `could not renew the lease`: the reason of a writer whose renewals fail for a whole lease. -/
def renewReason : String :=
  "could not renew the lease at `" ++ cfg.lockKey ++ "` for " ++
    toString (cfg.lockLeaseTimeoutMs / 1000) ++
    "s (storage write errors); it is stale to competing writers -- stopping"

/-- `could not verify the lease`: the reason of a writer whose reads fail for a whole lease. -/
def verifyReason : String :=
  "could not verify the lease at `" ++ cfg.lockKey ++ "` for " ++
    toString (cfg.lockLeaseTimeoutMs / 1000) ++
    "s (storage errors); a competing writer may have taken over — stopping"

end RelytIngest
