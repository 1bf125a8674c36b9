import RelytIngest.Writer.Pipeline
import RelytIngest.Foundations.LabelledRun

/-!
# The writer as a machine

`Writer` is the state of one writer with everything that runs concurrently on it: one append at a
time, any number of flushes (and the drain of `close`), the ticker, the three stage tasks, and from
outside the lease heartbeat and the notify loop. A step of `Writer.step` is what one of them does
between two points where another may run: an await, a lock acquisition, an update of the progress
channel. Clock readings, results of storage and of blocking tasks, and the notify loop's
confirmations are part of the action.

The seal lock is an optional `Holding`: the holder with the phase of its hand-over, so no two
callers can be in a hand-over at once. `Trace` records what happened so far; no step reads it but
for the number of the next append call.

Left out: the staging collector and the lag sampler, the heartbeat's own protocol, and the release
of the lease after the drain of `close`.
-/

set_option autoImplicit false
set_option relaxedAutoImplicit false

namespace RelytIngest

open Foundations

/-- `matches!(e, Error::StagingStalled { .. })`. -/
def Error.isStagingStalled : Error → Bool
  | .stagingStalled _ _ => true
  | _ => false

/-- Who seals. -/
inductive Sealer
  | append
  | flush (id : Nat)
  | ticker
  deriving DecidableEq, Repr

/-- Where the holder of the seal lock is in its hand-over. -/
inductive SealPhase (β : Type)
  | entered
  | reserving
  | awaitingRoom
  /-- The channel is closed; the health is still to be checked. -/
  | closed
  /-- The channel is closed and the writer healthy. -/
  | gone
  | permitted
  | cutting
  | sending (cut : Sealed β)
  deriving DecidableEq, Repr

structure Holding (β : Type) where
  holder : Sealer
  phase : SealPhase β
  deriving DecidableEq, Repr

/-- How far a caller of `seal_and_send` is with the seal lock. -/
inductive SealWait
  | trying
  /-- Waiting for the lock or for a stall. -/
  | parked
  | holding
  deriving DecidableEq, Repr

/-- The append that is running. `maxEndBefore` is the `prev_max_end` it remembers. -/
inductive AppendTask (β : Type)
  | idle
  | checked (entry : Entry β)
  | sealing (entry : Entry β) (maxEndBefore : Option Int) (wait : SealWait)
  | unbuffering (entry : Entry β) (maxEndBefore : Option Int) (err : Error)
  deriving DecidableEq, Repr

/-- A run of `persist_state_if_due`. -/
inductive PersistPhase
  | beginning
  | rechecking (state : StateFile)
  | writing (state : StateFile)
  deriving DecidableEq, Repr

/-- A call of `flush`, or of `close`. -/
structure FlushCall (β : Type) where
  closing : Bool
  /-- The entries whose append had returned before the call. -/
  before : List (Entry β)
  deriving DecidableEq, Repr

inductive FlushTask (β : Type)
  | idle
  | sealing (call : FlushCall β) (wait : SealWait)
  /-- Nothing was sealed: the last sealed file is still to be looked up. -/
  | lookup (call : FlushCall β)
  | awaiting (call : FlushCall β) (target : Int)
  | persisting (call : FlushCall β) (phase : PersistPhase)
  | reading (call : FlushCall β)
  | returned (call : FlushCall β) (result : Except Error (Option Int))

inductive TickerTask
  | idle
  | checking
  | trying
  | holding
  | persisting (phase : PersistPhase)
  | stopped
  deriving DecidableEq, Repr

/-- The stopped states the rest of the writer reads. -/
structure Health where
  fenced : Option String
  orderFatal : Option String
  /-- The contract violation the notify loop recorded for this writer. -/
  serialFatal : Option String
  notifierGone : Bool
  deriving DecidableEq, Repr

/-- A sealed file with the entries it was cut from. -/
structure Cut (β : Type) where
  file : Sealed β
  entries : List (Entry β)
  deriving DecidableEq, Repr

def Cut.fileMeta {β : Type} (cut : Cut β) : FileMeta := cut.file.fileMeta

/-- An append that returned. -/
structure Returned (β : Type) where
  entry : Entry β
  /-- `max_end_offset` when it was called. -/
  maxEndBefore : Option Int
  result : Except Error Unit

/-- What happened so far. -/
structure Trace (β : Type) where
  /-- The number of append calls. -/
  calls : Nat
  pushed : List (Entry β)
  /-- The calls whose batch was taken back. -/
  takenBack : List Nat
  cuts : List (Cut β)
  /-- The files that entered the seal channel. -/
  sent : List FileMeta
  putReturned : List FileMeta
  /-- The files whose end offset `record_durable` has taken into account. -/
  recorded : List FileMeta
  notified : List NotifyRequest
  returned : List (Returned β)

structure Writer (β : Type) where
  st : WriterState β
  lock : Option (Holding β)
  append : AppendTask β
  flushes : Nat → FlushTask β
  ticker : TickerTask
  pipe : Pipeline β
  progress : Progress
  health : Health
  trace : Trace β

/-- Whose write of the state file. -/
inductive Persister
  | ticker
  | close (id : Nat)
  deriving DecidableEq, Repr

/-- The steps of a writer. -/
inductive Action (β : Type)
  | appendCall (batch : β) (startOffset endOffset : Int)
  | appendPush (now : Nat)
  | appendUnbuffer
  | flushCall (id : Nat) (closing : Bool)
  | flushLookup (id : Nat)
  | flushAwait (id : Nat)
  | flushRead (id : Nat)
  | tick
  | tickerCheck
  /-- `try_lock`: a freed lock is handed to a parked caller before that caller runs, so the attempt
  may fail on a lock no one holds. -/
  | tryLock (sealer : Sealer) (busy : Bool)
  | acquire (sealer : Sealer)
  | stall (sealer : Sealer)
  | handOver (now : Nat)
  | persistBegin (persister : Persister) (confirmedEnd : Option Int) (heartbeat : Bool)
  | persistRecheck (persister : Persister)
  | persistWrite (persister : Persister) (result : Except Error Unit)
  | receive (stage : StageName)
  | attempt (stage : StageName)
  | renderEnds (joinError : Option String)
  | gzipEnds (joinError : Option String)
  | putEnds (trial : PutTrial)
  | giveUp (stage : StageName)
  | calibrate
  | send (stage : StageName)
  | order
  | confirm
  | record
  | announce
  | land
  | fence (reason : String)
  | serialViolation (message : String)
  | notifierStops

/-- The bytes of a body. -/
def bodyBytes (body : Text) : List UInt8 := (String.ofList body).toUTF8.toList

/-- The entries whose append returned `Ok`. -/
def Trace.accepted {β : Type} (trace : Trace β) : List (Entry β) :=
  (trace.returned.filter fun r ↦ r.result.isOk).map Returned.entry

namespace Writer

variable {β : Type} (cfg : WriterConfig β)

/-- `TableWriter::new`. -/
def new (epochMs : Nat) (stagedOffset resumePersisted : Option Int) : Writer β where
  st := .initial epochMs stagedOffset resumePersisted
  lock := none
  append := .idle
  flushes _ := .idle
  ticker := .idle
  pipe := .initial
  progress := .initial
  health := ⟨none, none, none, false⟩
  trace := ⟨0, [], [], [], [], [], [], [], []⟩

/-- `fatal_state`, read in one step. -/
def fatalState (w : Writer β) : Option Error :=
  match w.health.orderFatal, w.health.fenced, w.health.serialFatal with
  | some detail, _, _ => some (.stagingOrderViolation detail)
  | none, some reason, _ => some (.writerFenced reason)
  | none, none, some message => some (.serialContractViolation message)
  | none, none, none =>
    match w.progress.stallError cfg.stagingErrorAfterAttempts i64Max with
    | some (.rotationFailed stage source) => some (.rotationFailed stage source)
    | _ => none

/-- What `until_stalled(i64::MAX)` resolves to. -/
def stalled (w : Writer β) : Option Error :=
  w.progress.stallError cfg.stagingErrorAfterAttempts i64Max

/-- `fenced_exit`: the progress channel after a stage found the writer fenced. -/
def fencedExit (w : Writer β) : Option Progress :=
  w.health.fenced.map fun reason ↦ w.progress.publishTerminal .fenced "pipeline" none reason

/-! ### Append -/

/-- The running append returns. -/
def appendReturns (w : Writer β) (entry : Entry β) (maxEndBefore : Option Int)
    (result : Except Error Unit) : Writer β :=
  { w with
    append := .idle
    trace := { w.trace with returned := w.trace.returned ++ [⟨entry, maxEndBefore, result⟩] } }

/-- `append_inner` up to the state lock. -/
def appendCall (w : Writer β) (batch : β) (startOffset endOffset : Int) : Option (Writer β) :=
  match w.append with
  | .idle =>
    let entry : Entry β := ⟨w.trace.calls, batch, startOffset, endOffset⟩
    let called := { w with trace := { w.trace with calls := w.trace.calls + 1 } }
    let refused err := called.appendReturns entry w.st.maxEndOffset (.error err)
    some <|
      match w.fatalState cfg with
      | some err => refused err
      | none =>
        if startOffset < 0 ∨ endOffset < startOffset then
          refused (.config ("invalid Kafka offset range [" ++ toString startOffset ++ ", " ++
            toString endOffset ++ "]: offsets must be >= 0 and end >= start"))
        else if cfg.compatible batch then { called with append := .checked entry }
        else refused (.schema "append batch schema != table schema (column names / types)")
  | _ => none

/-- The offset check, the push and the rotation threshold, under the state lock. -/
def appendPush (w : Writer β) (now : Nat) : Option (Writer β) :=
  match w.append with
  | .checked entry =>
    let maxEndBefore := w.st.maxEndOffset
    some <|
      match w.st.checkForward entry.startOffset entry.endOffset with
      | .error err => w.appendReturns entry maxEndBefore (.error err)
      | .ok () =>
        let st := w.st.push cfg now entry
        let pushed :=
          { w with st := st, trace := { w.trace with pushed := w.trace.pushed ++ [entry] } }
        if st.shouldRotate cfg now then
          { pushed with append := .sealing entry maxEndBefore .trying }
        else
          pushed.appendReturns entry maxEndBefore (.ok ())
  | _ => none

/-- The batch is taken back after a failed hand-over, if it is still in the buffer. -/
def appendUnbuffer (w : Writer β) : Option (Writer β) :=
  match w.append with
  | .unbuffering entry maxEndBefore err =>
    some <|
      match w.st.unbuffer cfg entry.startOffset entry.endOffset maxEndBefore with
      | some (taken, st) =>
        { w with
          st := st
          trace := { w.trace with takenBack := w.trace.takenBack ++ [taken.call] }
          }.appendReturns entry maxEndBefore (.error err)
      | none =>
        w.appendReturns entry maxEndBefore
          (if err.isStagingStalled then .ok () else .error err)
  | _ => none

/-! ### Flush and close -/

def setFlush (w : Writer β) (id : Nat) (task : FlushTask β) : Writer β :=
  { w with flushes := Function.update w.flushes id task }

/-- What follows in a flush once everything is durable: `close` writes the state file first. -/
def FlushCall.durable (call : FlushCall β) : FlushTask β :=
  if call.closing then .persisting call .beginning else .reading call

def flushCall (w : Writer β) (id : Nat) (closing : Bool) : Option (Writer β) :=
  match w.flushes id with
  | .idle =>
    let call : FlushCall β := ⟨closing, w.trace.accepted⟩
    some <| w.setFlush id <|
      match w.fatalState cfg with
      | some err => .returned call (.error err)
      | none => .sealing call .trying
  | _ => none

def flushLookup (w : Writer β) (id : Nat) : Option (Writer β) :=
  match w.flushes id with
  | .lookup call =>
    some <| w.setFlush id <|
      match w.st.lastSealedSeq with
      | some target => .awaiting call target
      | none => FlushCall.durable call
  | _ => none

/-- `await_durable`, when it resolves. -/
def flushAwait (w : Writer β) (id : Nat) : Option (Writer β) :=
  match w.flushes id with
  | .awaiting call target =>
    if w.progress.durableSeq.any fun d ↦ decide (target ≤ d) then
      some (w.setFlush id (FlushCall.durable call))
    else
      (w.progress.stallError cfg.stagingErrorAfterAttempts target).map fun err ↦
        w.setFlush id (.returned call (.error err))
  | _ => none

def flushRead (w : Writer β) (id : Nat) : Option (Writer β) :=
  match w.flushes id with
  | .reading call => some (w.setFlush id (.returned call (.ok w.st.stagedOffset)))
  | _ => none

/-! ### The ticker and the state file -/

/-- A tick: the ticker stops for good once the writer is fenced, out of order or in violation. -/
def tick (w : Writer β) : Option (Writer β) :=
  match w.ticker with
  | .idle =>
    if w.health.fenced.isSome || w.health.orderFatal.isSome || w.health.serialFatal.isSome then
      some { w with ticker := .stopped }
    else
      some { w with ticker := .checking }
  | _ => none

/-- The gate of `seal_if_aged_nonblocking`. -/
def tickerCheck (w : Writer β) : Option (Writer β) :=
  match w.ticker with
  | .checking =>
    match w.fatalState cfg with
    | some _ => some { w with ticker := .persisting .beginning }
    | none => some { w with ticker := .trying }
  | _ => none

/-- The phase of a run of `persist_state_if_due`. -/
def persistPhase (w : Writer β) : Persister → Option PersistPhase
  | .ticker =>
    match w.ticker with
    | .persisting phase => some phase
    | _ => none
  | .close id =>
    match w.flushes id with
    | .persisting _ phase => some phase
    | _ => none

/-- The run goes on with a phase, or ends. -/
def setPersist (w : Writer β) (next : Option PersistPhase) : Persister → Writer β
  | .ticker => { w with ticker := next.elim .idle .persisting }
  | .close id =>
    match w.flushes id with
    | .persisting call _ => w.setFlush id (next.elim (.reading call) (.persisting call))
    | _ => w

/-- The advance of the confirmed offset and the heartbeat decide whether a write is due. -/
def persistBegin (w : Writer β) (persister : Persister) (confirmedEnd : Option Int)
    (heartbeat : Bool) : Option (Writer β) :=
  match w.persistPhase persister with
  | some .beginning =>
    let next :=
      if w.health.fenced.isSome then none
      else
        (persistStateIfDue heartbeat confirmedEnd w.st.resumePersisted).map fun resume ↦
          PersistPhase.rechecking ⟨resume, w.st.epochMs⟩
    some (w.setPersist next persister)
  | _ => none

/-- The fence is checked again right before the write. -/
def persistRecheck (w : Writer β) (persister : Persister) : Option (Writer β) :=
  match w.persistPhase persister with
  | some (.rechecking state) =>
    some (w.setPersist (if w.health.fenced.isSome then none else some (.writing state)) persister)
  | _ => none

/-- The write returns. -/
def persistWrite (w : Writer β) (persister : Persister) (result : Except Error Unit) :
    Option (Writer β) :=
  match w.persistPhase persister with
  | some (.writing state) =>
    let written :=
      if result.isOk then { w with st := { w.st with resumePersisted := state.resumeOffset } }
      else w
    some (written.setPersist none persister)
  | _ => none

/-! ### The hand-over under the seal lock -/

/-- How far a sealer is with the seal lock. -/
def waitOf (w : Writer β) : Sealer → Option SealWait
  | .append =>
    match w.append with
    | .sealing _ _ wait => some wait
    | _ => none
  | .flush id =>
    match w.flushes id with
    | .sealing _ wait => some wait
    | _ => none
  | .ticker =>
    match w.ticker with
    | .trying => some .trying
    | .holding => some .holding
    | _ => none

def setWait (w : Writer β) (wait : SealWait) : Sealer → Writer β
  | .append =>
    match w.append with
    | .sealing entry maxEndBefore _ => { w with append := .sealing entry maxEndBefore wait }
    | _ => w
  | .flush id =>
    match w.flushes id with
    | .sealing call _ => w.setFlush id (.sealing call wait)
    | _ => w
  | .ticker => { w with ticker := .holding }

/-- The sealer has the lock. The ticker reserves at once; the others look at the buffer first. -/
def grant (w : Writer β) (sealer : Sealer) : Writer β :=
  { w.setWait .holding sealer with
    lock := some ⟨sealer, if sealer = .ticker then .reserving else .entered⟩ }

/-- `seal_and_send` or the ticker's seal returns to its caller. -/
def sealReturns (w : Writer β) (result : Except Error (Option Int)) : Sealer → Writer β
  | .append =>
    match w.append with
    | .sealing entry maxEndBefore _ =>
      match result with
      | .ok _ => w.appendReturns entry maxEndBefore (.ok ())
      | .error err => { w with append := .unbuffering entry maxEndBefore err }
    | _ => w
  | .flush id =>
    match w.flushes id with
    | .sealing call _ =>
      w.setFlush id <|
        match result with
        | .ok (some seq) => .awaiting call seq
        | .ok none => .lookup call
        | .error err => .returned call (.error err)
    | _ => w
  | .ticker => { w with ticker := .persisting .beginning }

/-- The first attempt at the seal lock. The ticker skips its turn when it fails. -/
def tryLock (w : Writer β) (sealer : Sealer) (busy : Bool) : Option (Writer β) :=
  if w.waitOf sealer = some .trying then
    if busy then
      if sealer = .ticker then some (w.sealReturns (.ok none) sealer)
      else some (w.setWait .parked sealer)
    else if w.lock.isNone then some (w.grant sealer)
    else none
  else none

/-- A parked caller gets the lock. -/
def acquire (w : Writer β) (sealer : Sealer) : Option (Writer β) :=
  if w.waitOf sealer = some .parked ∧ w.lock.isNone then some (w.grant sealer) else none

/-- The sealer holds the lock and waits for room in the queue. -/
def awaitsRoom (w : Writer β) (sealer : Sealer) : Bool :=
  w.lock.any fun holding ↦ decide (holding.holder = sealer) && holding.phase matches .awaitingRoom

/-- A caller that waits for the lock or for room in the queue gives up on a stuck pipeline. -/
def stall (w : Writer β) (sealer : Sealer) : Option (Writer β) :=
  match w.stalled cfg with
  | none => none
  | some err =>
    if w.waitOf sealer = some .parked then some (w.sealReturns (.error err) sealer)
    else if w.awaitsRoom sealer then
      some ({ w with lock := none }.sealReturns (.error err) sealer)
    else none

/-- The holder of the seal lock releases it and returns. -/
def finish (w : Writer β) (holder : Sealer) (result : Except Error (Option Int)) : Writer β :=
  { w with lock := none }.sealReturns result holder

def setPhase (w : Writer β) (holder : Sealer) (phase : SealPhase β) : Writer β :=
  { w with lock := some ⟨holder, phase⟩ }

/-- The buffer is cut under the state lock. -/
def cut (w : Writer β) (holder : Sealer) (now : Nat) : Writer β :=
  match w.st.sealBuffer cfg now (decide (holder = .ticker)) with
  | (.error err, st) => { w with st := st }.finish holder (.error err)
  | (.ok none, st) => { w with st := st }.finish holder (.ok none)
  | (.ok (some sealed), st) =>
    { w with
      st := st
      trace := { w.trace with cuts := w.trace.cuts ++ [Cut.mk sealed w.st.buffered] }
      }.setPhase holder (.sending sealed)

/-- One step of the holder of the seal lock. A holder that waits for room has no step until there
is some. -/
def handOver (w : Writer β) (now : Nat) : Option (Writer β) :=
  match w.lock with
  | none => none
  | some ⟨holder, phase⟩ =>
    match phase with
    | .entered =>
      if w.st.sealable cfg now false then some (w.setPhase holder .reserving)
      else some (w.finish holder (.ok none))
    | .reserving =>
      if w.pipe.render.hasExited then
        if holder = .ticker then some (w.finish holder (.ok none))
        else some (w.setPhase holder .closed)
      else if w.pipe.queue.length < cfg.queueDepth then
        if holder = .ticker then some (w.setPhase holder .cutting)
        else some (w.setPhase holder .permitted)
      else if holder = .ticker then some (w.finish holder (.ok none))
      else some (w.setPhase holder .awaitingRoom)
    | .awaitingRoom =>
      if w.pipe.render.hasExited then some (w.setPhase holder .closed)
      else if w.pipe.queue.length < cfg.queueDepth then some (w.setPhase holder .permitted)
      else none
    | .closed =>
      match w.fatalState cfg with
      | some err => some (w.finish holder (.error err))
      | none => some (w.setPhase holder .gone)
    | .gone =>
      some ({ w with progress := w.progress.pipelineGone.2 }.finish holder
        (.error w.progress.pipelineGone.1))
    | .permitted =>
      match w.fatalState cfg with
      | some err => some (w.finish holder (.error err))
      | none => some (w.setPhase holder .cutting)
    | .cutting => some (w.cut cfg holder now)
    | .sending sealed =>
      some ({ w with
        pipe := { w.pipe with queue := w.pipe.queue ++ [sealed] }
        trace := { w.trace with sent := w.trace.sent ++ [sealed.fileMeta] }
        }.finish holder (.ok (some sealed.fileMeta.serialSeq)))

/-! ### The stages -/

def setRender (w : Writer β) (stage : Stage (Sealed β) RenderPhase) : Writer β :=
  { w with pipe := { w.pipe with render := stage } }

def setGzip (w : Writer β) (stage : Stage Rendered Compressed) : Writer β :=
  { w with pipe := { w.pipe with gzip := stage } }

def setPut (w : Writer β) (stage : Stage Compressed PutPhase) : Writer β :=
  { w with pipe := { w.pipe with put := stage } }

/-- `rx.recv()` of a stage; without a sender and a file left the stage ends. -/
def receive (w : Writer β) : StageName → Option (Writer β)
  | .render =>
    match w.pipe.render, w.pipe.queue with
    | .receiving, file :: rest =>
      some { w with pipe := { w.pipe with render := .attempt file 0, queue := rest } }
    | _, _ => none
  | .gzip =>
    match w.pipe.gzip, w.pipe.toGzip with
    | .receiving, file :: rest =>
      let stage : Stage Rendered Compressed :=
        if file.fileMeta.file.compressed then .attempt file 0
        else .between ⟨file.fileMeta, bodyBytes file.body⟩
      some { w with pipe := { w.pipe with gzip := stage, toGzip := rest } }
    | .receiving, [] => if w.pipe.render.hasExited then some (w.setGzip (.exited [])) else none
    | _, _ => none
  | .put =>
    match w.pipe.put, w.pipe.toPut with
    | .receiving, file :: rest =>
      some { w with pipe := { w.pipe with put := .between (.ordering file), toPut := rest } }
    | .receiving, [] => if w.pipe.gzip.hasExited then some (w.setPut (.exited [])) else none
    | _, _ => none

/-- The top of a retry loop: a fenced writer's stage drops the file and ends. -/
def attempt (w : Writer β) : StageName → Option (Writer β)
  | .render =>
    match w.pipe.render with
    | .attempt file failures =>
      match w.fencedExit with
      | some progress => some ({ w with progress := progress }.setRender (.exited [file.fileMeta]))
      | none => some (w.setRender (.running file failures))
    | _ => none
  | .gzip =>
    match w.pipe.gzip with
    | .attempt file failures =>
      match w.fencedExit with
      | some progress => some ({ w with progress := progress }.setGzip (.exited [file.fileMeta]))
      | none => some (w.setGzip (.running file failures))
    | _ => none
  | .put =>
    match w.pipe.put with
    | .attempt file failures =>
      match w.fencedExit with
      | some progress => some ({ w with progress := progress }.setPut (.exited [file.fileMeta]))
      | none => some (w.setPut (.running file failures))
    | _ => none

/-- The progress channel after an attempt succeeded. -/
def passed (w : Writer β) (failures : Nat) (m : FileMeta) : Progress :=
  if 0 < failures then w.progress.clearFailure m.serialSeq else w.progress

/-- The progress channel after an attempt failed. -/
def failing (w : Writer β) (stage : StageName) (failures : Nat) (m : FileMeta) (err : Error) :
    Progress :=
  w.progress.reportFailure m.serialSeq stage.label (failures + 1) err.isPermanent err

/-- The blocking task's result, unless the task itself was lost. -/
def joined {α : Type} (joinError : Option String) (task : String) (result : Except Error α) :
    Except Error α :=
  match joinError with
  | some message => .error (.config (task ++ " task failed: " ++ message))
  | none => result

def renderEnds (w : Writer β) (joinError : Option String) : Option (Writer β) :=
  match w.pipe.render with
  | .running file failures =>
    some <|
      match joined joinError "render" (cfg.render file.batches) with
      | .ok (body, rows) =>
        let out : Rendered := ⟨file.fileMeta, body, rows⟩
        { w with progress := w.passed failures file.fileMeta }.setRender
          (.between (if 0 < rows then .calibrating out else .sending out))
      | .error err =>
        { w with progress := w.failing .render failures file.fileMeta err }.setRender
          (.failed file failures err)
  | _ => none

def gzipEnds (w : Writer β) (joinError : Option String) : Option (Writer β) :=
  match w.pipe.gzip with
  | .running file failures =>
    some <|
      match joined joinError "gzip" (cfg.gzip file.body) with
      | .ok payload =>
        { w with progress := w.passed failures file.fileMeta }.setGzip
          (.between ⟨file.fileMeta, payload⟩)
      | .error err =>
        { w with progress := w.failing .gzip failures file.fileMeta err }.setGzip
          (.failed file failures err)
  | _ => none

def putEnds (w : Writer β) (trial : PutTrial) : Option (Writer β) :=
  match w.pipe.put with
  | .running file failures =>
    some <|
      match trial.result with
      | .ok () =>
        { w with
          progress := w.passed failures file.fileMeta
          trace := { w.trace with putReturned := w.trace.putReturned ++ [file.fileMeta] }
          }.setPut (.between (.returned file.fileMeta))
      | .error err =>
        { w with progress := w.failing .put failures file.fileMeta err }.setPut
          (.failed file failures err)
  | _ => none

/-- The progress channel after a stage gave up on a file. -/
def rejection (w : Writer β) (stage : StageName) (err : Error) : Progress :=
  w.progress.publishTerminal .rotation stage.label (some err.clone)
    (stage.label ++ ": " ++ err.toText)

/-- The second update of a permanent failure, after which the stage ends. -/
def giveUp (w : Writer β) : StageName → Option (Writer β)
  | .render =>
    match w.pipe.render with
    | .rejected file err =>
      some ({ w with progress := w.rejection .render err }.setRender (.exited [file.fileMeta]))
    | _ => none
  | .gzip =>
    match w.pipe.gzip with
    | .rejected file err =>
      some ({ w with progress := w.rejection .gzip err }.setGzip (.exited [file.fileMeta]))
    | _ => none
  | .put =>
    match w.pipe.put with
    | .rejected file err =>
      some ({ w with progress := w.rejection .put err }.setPut (.exited [file.fileMeta]))
    | _ => none

/-- The measured row width replaces the memory estimate. -/
def calibrate (w : Writer β) : Option (Writer β) :=
  match w.pipe.render with
  | .between (.calibrating out) =>
    some ({ w with st := { w.st with avgRowBytes := some ((bodyBytes out.body).length, out.rows) }
      }.setRender (.between (.sending out)))
  | _ => none

/-- A stage hands its file to the next one, whose channel has one slot; it ends when that stage
has. -/
def send (w : Writer β) : StageName → Option (Writer β)
  | .render =>
    match w.pipe.render with
    | .between (.sending out) =>
      if w.pipe.gzip.hasExited then some (w.setRender (.exited [out.fileMeta]))
      else if w.pipe.toGzip = [] then
        some { w with pipe := { w.pipe with render := .receiving, toGzip := [out] } }
      else none
    | _ => none
  | .gzip =>
    match w.pipe.gzip with
    | .between out =>
      if w.pipe.put.hasExited then some (w.setGzip (.exited [out.fileMeta]))
      else if w.pipe.toPut = [] then
        some { w with pipe := { w.pipe with gzip := .receiving, toPut := [out] } }
      else none
    | _ => none
  | .put => none

/-- The order tripwire before the first put of a file. -/
def order (w : Writer β) : Option (Writer β) :=
  match w.pipe.put with
  | .between (.ordering file) =>
    match w.fencedExit with
    | some progress => some ({ w with progress := progress }.setPut (.exited [file.fileMeta]))
    | none =>
      match checkOrder w.pipe.prev file.fileMeta.file with
      | .ok () => some (w.setPut (.attempt file 0))
      | .error detail =>
        some ({ w with
          health := { w.health with orderFatal := w.health.orderFatal <|> some detail }
          progress := w.progress.publishTerminal .orderViolation "pipeline" none detail
          }.setPut (.exited [file.fileMeta]))
  | _ => none

/-- The fence is checked once more after the put returned. -/
def confirm (w : Writer β) : Option (Writer β) :=
  match w.pipe.put with
  | .between (.returned m) =>
    match w.fencedExit with
    | some progress => some ({ w with progress := progress }.setPut (.exited []))
    | none => some (w.setPut (.between (.recording m)))
  | _ => none

/-- `record_durable`, the half under the state lock. -/
def record (w : Writer β) : Option (Writer β) :=
  match w.pipe.put with
  | .between (.recording m) =>
    some ({ w with
      st := w.st.recordDurable m
      trace := { w.trace with recorded := w.trace.recorded ++ [m] }
      }.setPut (.between (.announcing m)))
  | _ => none

/-- `record_durable`, the announcement. -/
def announce (w : Writer β) : Option (Writer β) :=
  match w.pipe.put with
  | .between (.announcing m) =>
    let notified :=
      if w.health.notifierGone then w.trace.notified
      else w.trace.notified ++ [notifyRequest cfg m]
    some ({ w with trace := { w.trace with notified := notified } }.setPut
      (.between (.landing m)))
  | _ => none

/-- The file is durable and announced. -/
def land (w : Writer β) : Option (Writer β) :=
  match w.pipe.put with
  | .between (.landing m) =>
    some { w with
      pipe := { w.pipe with
        put := .receiving
        prev := some (m.file.epochMs, m.file.seq, m.file.endOffset) }
      progress := w.progress.land m.serialSeq }
  | _ => none

/-- The steps of a writer. -/
def step (w : Writer β) : Action β → Option (Writer β)
  | .appendCall batch startOffset endOffset => w.appendCall cfg batch startOffset endOffset
  | .appendPush now => w.appendPush cfg now
  | .appendUnbuffer => w.appendUnbuffer cfg
  | .flushCall id closing => w.flushCall cfg id closing
  | .flushLookup id => w.flushLookup id
  | .flushAwait id => w.flushAwait cfg id
  | .flushRead id => w.flushRead id
  | .tick => w.tick
  | .tickerCheck => w.tickerCheck cfg
  | .tryLock sealer busy => w.tryLock sealer busy
  | .acquire sealer => w.acquire sealer
  | .stall sealer => w.stall cfg sealer
  | .handOver now => w.handOver cfg now
  | .persistBegin persister confirmedEnd heartbeat =>
    w.persistBegin persister confirmedEnd heartbeat
  | .persistRecheck persister => w.persistRecheck persister
  | .persistWrite persister result => w.persistWrite persister result
  | .receive stage => w.receive stage
  | .attempt stage => w.attempt stage
  | .renderEnds joinError => w.renderEnds cfg joinError
  | .gzipEnds joinError => w.gzipEnds cfg joinError
  | .putEnds trial => w.putEnds trial
  | .giveUp stage => w.giveUp stage
  | .calibrate => w.calibrate
  | .send stage => w.send stage
  | .order => w.order
  | .confirm => w.confirm
  | .record => w.record
  | .announce => w.announce cfg
  | .land => w.land
  | .fence reason =>
    some { w with health := { w.health with fenced := w.health.fenced <|> some reason } }
  | .serialViolation message =>
    some { w with health := { w.health with serialFatal := w.health.serialFatal <|> some message } }
  | .notifierStops => some { w with health := { w.health with notifierGone := true } }

/-- The states of a writer opened with a session epoch and the recovered offsets. -/
def ReachableFrom (epochMs : Nat) (stagedOffset resumePersisted : Option Int) : Writer β → Prop :=
  Reachable (step cfg) (new epochMs stagedOffset resumePersisted)

end Writer

/-- A writer of a table of one text column that stages plain files of about a kilobyte. -/
def sampleConfig : WriterConfig RecordBatch :=
  .ofTable sampleTextKey.toTableSchema (fun batch ↦ 64 * batch.numRows) (fun _ ↦ .ok [])
    (fun rows avg ↦ rows * avg.1 / avg.2)
    { ident := ⟨"c".toList, 1, 2, "w".toList⟩
      urlBase := "oss://h/b".toList
      compressed := false
      delimiter := ','
      upsert := true
      retryMax := none
      rotateSizeBytes := 1024
      rotateIntervalMax := 60000
      rotationQueueDepth := 1
      stagingErrorAfterAttempts := 3
      numRows := fun _ ↦ 0
      memorySize := fun _ ↦ 0
      compatible := fun _ ↦ true
      render := fun _ ↦ .ok ([], 0)
      gzip := fun _ ↦ .ok []
      estimateBytes := fun _ _ ↦ 0 }

/-- An append of one row with the given range, in which no rotation is due. -/
def sampleAppend (startOffset endOffset : Int) : List (Action RecordBatch) :=
  [.appendCall (sampleTextKeyBatch ["a".toList]) startOffset endOffset, .appendPush 0]

/-- A flush seals what is buffered, the stages take the file to the put, and the flush returns. -/
def sampleFlush : List (Action RecordBatch) :=
  [.flushCall 0 false, .tryLock (.flush 0) false] ++ List.replicate 5 (.handOver 0) ++
    [.receive .render, .attempt .render, .renderEnds none, .calibrate, .send .render,
      .receive .gzip, .send .gzip, .receive .put, .order, .attempt .put,
      .putEnds ⟨.ok (), .ok false, .ok ()⟩, .confirm, .record, .announce, .land,
      .flushAwait 0, .flushRead 0]

/-- A flush hands a file of one row to the queue and waits. -/
def sampleSeal (id : Nat) (startOffset endOffset : Int) : List (Action RecordBatch) :=
  sampleAppend startOffset endOffset ++ [.flushCall id false, .tryLock (.flush id) false] ++
    List.replicate 5 (.handOver 0)

/-- The render stage takes a file from the queue to the next channel. -/
def sampleRender : List (Action RecordBatch) :=
  [.receive .render, .attempt .render, .renderEnds none, .calibrate, .send .render]

/-- Three attempts to put a file fail. -/
def samplePutFails : List (Action RecordBatch) :=
  (List.replicate 3 [.attempt .put,
    .putEnds ⟨.error (.storage .other "broken"), .ok false, .ok ()⟩]).flatten

/-- A writer that staged `[0, 9]` and has `[10, 19]` in its buffer. -/
def flushed : Writer RecordBatch :=
  (run (Writer.step sampleConfig) (Writer.new 1 none none)
    (sampleAppend 0 9 ++ sampleFlush ++ sampleAppend 10 19)).getD (Writer.new 1 none none)

theorem flushed_reachable : Writer.ReachableFrom sampleConfig 1 none none flushed := by
  have hrun : run (Writer.step sampleConfig) (Writer.new 1 none none)
      (sampleAppend 0 9 ++ sampleFlush ++ sampleAppend 10 19) = some flushed := rfl
  exact reachable_of_run .refl hrun

end RelytIngest
