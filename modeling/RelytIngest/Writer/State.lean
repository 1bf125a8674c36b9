import RelytIngest.Naming
import RelytIngest.Recovery
import RelytIngest.Notify.Loop
import RelytIngest.Render

/-!
# The writer's state

`WriterState` is what the state lock of a writer guards, and this module holds the functions that
run under that lock: the offset check and the push of `append`, the rotation threshold, `seal`,
`unbuffer` and the first half of `record_durable`. They are generic in the batches; `WriterConfig`
collects what a writer asks of a batch and of its configuration, and `WriterConfig.ofTable` is the
instance for record batches of a table.

Each buffered entry carries the number of the append call that pushed it, which the source does not
store and no function reads. The list of known files, which only the lag sampler reads, the timings
of the log lines and the state written by the heartbeat are left out. The size estimate is
floating-point arithmetic and a parameter.
-/

set_option autoImplicit false
set_option relaxedAutoImplicit false

namespace RelytIngest

open Foundations

/-- What a writer takes from its configuration, its table and its batches. -/
structure WriterConfig (β : Type) where
  ident : WriterIdentity
  urlBase : Text
  compressed : Bool
  delimiter : Char
  upsert : Bool
  retryMax : Option Int
  rotateSizeBytes : Nat
  rotateIntervalMax : Nat
  rotationQueueDepth : Nat
  stagingErrorAfterAttempts : Nat
  numRows : β → Nat
  memorySize : β → Nat
  /-- The batch has the columns of the table. -/
  compatible : β → Bool
  render : List β → Except Error (Text × Nat)
  gzip : Text → Except Error (List UInt8)
  /-- `(buffered_rows as f64 * avg) as u64`, the average given as a body length and a row count. -/
  estimateBytes : Nat → Nat × Nat → Nat

/-- The configuration of a writer of record batches of a table. -/
def WriterConfig.ofTable (schema : TableSchema) (memorySize : RecordBatch → Nat)
    (gzip : Text → Except Error (List UInt8)) (estimateBytes : Nat → Nat × Nat → Nat)
    (base : WriterConfig Unit) : WriterConfig RecordBatch :=
  { base with
    numRows := RecordBatch.numRows
    memorySize := memorySize
    compatible := fun batch ↦ schemaCompatible batch.schema schema.arrow
    render := renderOnce schema base.upsert base.delimiter
    gzip := gzip
    estimateBytes := estimateBytes }

/-- The capacity of the seal channel: `rotation_queue_depth.max(1)`. -/
def WriterConfig.queueDepth {β : Type} (cfg : WriterConfig β) : Nat := max cfg.rotationQueueDepth 1

/-- A buffered batch with its Kafka offset range. -/
structure Entry (β : Type) where
  /-- The append call that pushed it. -/
  call : Nat
  batch : β
  startOffset : Int
  endOffset : Int
  deriving DecidableEq, Repr

/-- What the state lock guards. -/
structure WriterState (β : Type) where
  buffered : List (Entry β)
  bufferedBytesEstimate : Nat
  oldestBufferedAt : Option Nat
  bufferedRows : Nat
  /-- Body length and rows of the last rendered file. -/
  avgRowBytes : Option (Nat × Nat)
  epochMs : Nat
  nextSeq : Nat
  /-- The files sealed but not yet durable, as `(serial_seq, sealed_at)`. -/
  inFlight : List (Int × Nat)
  stagedOffset : Option Int
  lastSealedSeq : Option Int
  maxEndOffset : Option Int
  resumePersisted : Option Int
  deriving DecidableEq, Repr

/-- The file's identity, carried through every stage. -/
structure FileMeta where
  file : StagedFile
  serialSeq : Int
  identifier : Text
  objectKey : Text
  deriving DecidableEq, Repr

/-- A rotation unit as cut out of the buffer. -/
structure Sealed (β : Type) where
  fileMeta : FileMeta
  batches : List β
  deriving DecidableEq, Repr

/-- A writer's file announced to the server. -/
def notifyRequest {β : Type} (cfg : WriterConfig β) (m : FileMeta) : NotifyRequest where
  serialGroup := cfg.ident.serialGroup
  endOffset := m.file.endOffset
  identifier := m.identifier
  sourceUrl := cfg.urlBase ++ '/' :: m.objectKey
  target := cfg.ident.relOid
  delimiter := cfg.delimiter
  upsert := cfg.upsert
  serialSeq := m.serialSeq
  retryMax := cfg.retryMax <|> some (-1)

namespace WriterState

variable {β : Type} (cfg : WriterConfig β) (st : WriterState β)

/-- The state `TableWriter::new` starts from. -/
def initial (epochMs : Nat) (stagedOffset resumePersisted : Option Int) : WriterState β where
  buffered := []
  bufferedBytesEstimate := 0
  oldestBufferedAt := none
  bufferedRows := 0
  avgRowBytes := none
  epochMs := epochMs
  nextSeq := 0
  inFlight := []
  stagedOffset := stagedOffset
  lastSealedSeq := none
  maxEndOffset := none
  resumePersisted := resumePersisted

/-- The offset check of `append`: a batch that starts at or before the highest offset appended to
this writer is refused. -/
def checkForward (startOffset endOffset : Int) : Except Error Unit :=
  match st.maxEndOffset with
  | some maxEnd =>
    if startOffset ≤ maxEnd then
      .error (.config ("Kafka offsets went backwards: batch [" ++ toString startOffset ++ ", " ++
        toString endOffset ++ "] starts at or before the last appended end offset " ++
        toString maxEnd ++ "; the batch was not buffered. If the consumer was rewound " ++
        "(rebalance, seek), reopen the table and resume from RecoveryPlan::kafka_resume_offset " ++
        "instead of re-appending to this writer."))
    else .ok ()
  | none => .ok ()

/-- The push of `append`, under one hold of the state lock with the check before it. -/
def push (now : Nat) (entry : Entry β) : WriterState β :=
  { st with
    maxEndOffset := some entry.endOffset
    bufferedBytesEstimate := st.bufferedBytesEstimate + cfg.memorySize entry.batch
    bufferedRows := st.bufferedRows + cfg.numRows entry.batch
    buffered := st.buffered ++ [entry]
    oldestBufferedAt := st.oldestBufferedAt <|> some now }

/-- The oldest buffered row has aged past `rotate_interval_max`. -/
def aged (now : Nat) : Bool :=
  st.oldestBufferedAt.any fun t ↦ decide (cfg.rotateIntervalMax ≤ now - t)

/-- The rotation threshold of `append`, by size or by age. -/
def shouldRotate (now : Nat) : Bool :=
  let estBytes :=
    match st.avgRowBytes with
    | some avg => cfg.estimateBytes st.bufferedRows avg
    | none => st.bufferedBytesEstimate
  decide (cfg.rotateSizeBytes ≤ estBytes) || st.aged cfg now

/-- `sealable`. -/
def sealable (now : Nat) (agedOnly : Bool) : Bool :=
  !st.buffered.isEmpty && (!agedOnly || st.aged cfg now)

/-- The epoch rolls over before a seal once the seqs are exhausted. -/
def rolled : WriterState β :=
  if MAX_SEQ < st.nextSeq then { st with epochMs := st.epochMs + 1, nextSeq := 0 } else st

/-- The file a seal of a buffer with entries makes; `first` is its oldest entry. -/
def sealFile (first : Entry β) (rest : List (Entry β)) : StagedFile where
  epochMs := st.epochMs
  seq := st.nextSeq
  startOffset := rest.foldl (fun least e ↦ min least e.startOffset) first.startOffset
  endOffset := rest.foldl (fun most e ↦ max most e.endOffset) first.endOffset
  compressed := cfg.compressed

/-- The names of a file, encoded before anything is consumed. -/
def sealMeta (file : StagedFile) : Except Error FileMeta := do
  let serialSeq ← file.serialSeq
  let identifier ← file.identifier cfg.ident
  return ⟨file, serialSeq, identifier, file.objectKey cfg.ident⟩

/-- `seal`: the state after it, and the sealed file, none when there is nothing to seal. A failed
encoding leaves the buffer and the seq, but not the roll-over. -/
def sealBuffer (now : Nat) (agedOnly : Bool) :
    Except Error (Option (Sealed β)) × WriterState β :=
  match st.buffered with
  | [] => (.ok none, st)
  | first :: rest =>
    if st.sealable cfg now agedOnly then
      let rolled := st.rolled
      match sealMeta cfg (rolled.sealFile cfg first rest) with
      | .error err => (.error err, rolled)
      | .ok m =>
        (.ok (some ⟨m, (first :: rest).map Entry.batch⟩),
          { rolled with
            nextSeq := rolled.nextSeq + 1
            buffered := []
            bufferedBytesEstimate := 0
            bufferedRows := 0
            oldestBufferedAt := none
            lastSealedSeq := some m.serialSeq
            inFlight := rolled.inFlight ++ [(m.serialSeq, now)] })
    else (.ok none, st)

/-- The index of the last buffered entry of the range: `rposition`. -/
def lastOfRange (startOffset endOffset : Int) : Option Nat :=
  (st.buffered.reverse.findIdx? fun e ↦
    decide (e.startOffset = startOffset ∧ e.endOffset = endOffset)).map
      fun i ↦ st.buffered.length - 1 - i

/-- `unbuffer`: none when the batch is no longer in the buffer, else the entry taken out and the
state after it. -/
def unbuffer (startOffset endOffset : Int) (prevMaxEnd : Option Int) :
    Option (Entry β × WriterState β) :=
  match st.lastOfRange startOffset endOffset with
  | none => none
  | some i =>
    match st.buffered[i]? with
    | none => none
    | some entry =>
      let buffered := st.buffered.eraseIdx i
      some (entry,
        { st with
          buffered := buffered
          bufferedBytesEstimate := st.bufferedBytesEstimate - cfg.memorySize entry.batch
          bufferedRows := st.bufferedRows - cfg.numRows entry.batch
          oldestBufferedAt := if buffered.isEmpty then none else st.oldestBufferedAt
          maxEndOffset :=
            if st.maxEndOffset = some endOffset then prevMaxEnd else st.maxEndOffset })

/-- The half of `record_durable` under the state lock. -/
def recordDurable (m : FileMeta) : WriterState β :=
  { st with
    stagedOffset := some (match st.stagedOffset with
      | some prev => max prev m.file.endOffset
      | none => m.file.endOffset)
    inFlight := st.inFlight.filter fun flying ↦ decide (flying.1 ≠ m.serialSeq) }

/-! ### What the functions under the lock do -/

variable {cfg st}

theorem checkForward_eq_ok_iff {startOffset endOffset : Int} :
    st.checkForward startOffset endOffset = .ok () ↔
      ∀ maxEnd, st.maxEndOffset = some maxEnd → maxEnd < startOffset := by
  unfold checkForward
  cases st.maxEndOffset with
  | none => simp
  | some maxEnd =>
    by_cases hle : startOffset ≤ maxEnd
    · simp [hle, not_lt.mpr hle]
    · simp [hle, not_le.mp hle]

/-- The state after a seal that produced a file. -/
def sealedState (st : WriterState β) (now : Nat) (m : FileMeta) : WriterState β :=
  { st.rolled with
    nextSeq := st.rolled.nextSeq + 1
    buffered := []
    bufferedBytesEstimate := 0
    bufferedRows := 0
    oldestBufferedAt := none
    lastSealedSeq := some m.serialSeq
    inFlight := st.rolled.inFlight ++ [(m.serialSeq, now)] }

theorem sealBuffer_some {now : Nat} {agedOnly : Bool} {sealed : Sealed β} {after : WriterState β}
    (hseal : st.sealBuffer cfg now agedOnly = (.ok (some sealed), after)) :
    ∃ first rest, st.buffered = first :: rest ∧
      sealMeta cfg (st.rolled.sealFile cfg first rest) = .ok sealed.fileMeta ∧
      sealed.batches = st.buffered.map Entry.batch ∧
      after = st.sealedState now sealed.fileMeta := by
  unfold sealBuffer at hseal
  split at hseal
  · simp at hseal
  · next first rest hbuffered =>
    split_ifs at hseal
    · dsimp only at hseal
      split at hseal
      · simp at hseal
      · next m hmeta =>
        simp only [Prod.mk.injEq, Except.ok.injEq, Option.some.injEq] at hseal
        obtain ⟨rfl, rfl⟩ := hseal
        exact ⟨first, rest, hbuffered, hmeta, by rw [hbuffered], rfl⟩
    · simp at hseal

theorem sealBuffer_none {now : Nat} {agedOnly : Bool} {after : WriterState β}
    (hseal : st.sealBuffer cfg now agedOnly = (.ok none, after)) :
    st.sealable cfg now agedOnly = false ∧ after = st := by
  unfold sealBuffer at hseal
  split at hseal
  · next hbuffered => exact ⟨by simp [sealable, hbuffered], (Prod.ext_iff.mp hseal).2.symm⟩
  · split_ifs at hseal with hsealable
    · dsimp only at hseal
      split at hseal <;> simp at hseal
    · exact ⟨by simpa using hsealable, (Prod.ext_iff.mp hseal).2.symm⟩

theorem sealBuffer_error {now : Nat} {agedOnly : Bool} {err : Error} {after : WriterState β}
    (hseal : st.sealBuffer cfg now agedOnly = (.error err, after)) :
    after = st.rolled ∧ ∃ file, sealMeta cfg file = .error err := by
  unfold sealBuffer at hseal
  split at hseal
  · simp at hseal
  · split_ifs at hseal
    · dsimp only at hseal
      split at hseal
      · next hmeta =>
        simp only [Prod.mk.injEq, Except.error.injEq] at hseal
        exact ⟨hseal.2.symm, _, hseal.1 ▸ hmeta⟩
      · simp at hseal
    · simp at hseal

/-- A roll-over changes the epoch and the next seq only. -/
theorem rolled_eq (st : WriterState β) :
    st.rolled = { st with epochMs := st.rolled.epochMs, nextSeq := st.rolled.nextSeq } := by
  unfold rolled
  split <;> rfl

@[simp] theorem rolled_buffered : st.rolled.buffered = st.buffered := by
  rw [rolled_eq]

@[simp] theorem rolled_maxEndOffset : st.rolled.maxEndOffset = st.maxEndOffset := by
  rw [rolled_eq]

@[simp] theorem rolled_stagedOffset : st.rolled.stagedOffset = st.stagedOffset := by
  rw [rolled_eq]

@[simp] theorem rolled_inFlight : st.rolled.inFlight = st.inFlight := by
  rw [rolled_eq]

theorem lastOfRange_nil {startOffset endOffset : Int} (hbuffered : st.buffered = []) :
    st.lastOfRange startOffset endOffset = none := by
  simp [lastOfRange, hbuffered]

theorem lastOfRange_append {kept : List (Entry β)} {entry : Entry β}
    (hbuffered : st.buffered = kept ++ [entry]) :
    st.lastOfRange entry.startOffset entry.endOffset = some kept.length := by
  simp [lastOfRange, hbuffered, List.findIdx?_cons]

/-- The state after the last buffered entry was taken back. -/
def droppedState (cfg : WriterConfig β) (st : WriterState β) (entry : Entry β)
    (prevMaxEnd : Option Int) : WriterState β :=
  { st with
    buffered := st.buffered.dropLast
    bufferedBytesEstimate := st.bufferedBytesEstimate - cfg.memorySize entry.batch
    bufferedRows := st.bufferedRows - cfg.numRows entry.batch
    oldestBufferedAt := if st.buffered.dropLast.isEmpty then none else st.oldestBufferedAt
    maxEndOffset :=
      if st.maxEndOffset = some entry.endOffset then prevMaxEnd else st.maxEndOffset }

theorem unbuffer_nil {startOffset endOffset : Int} {prevMaxEnd : Option Int}
    (hbuffered : st.buffered = []) :
    st.unbuffer cfg startOffset endOffset prevMaxEnd = none := by
  simp only [unbuffer, lastOfRange_nil hbuffered]

/-- An entry at the end of the buffer is the one taken out. -/
theorem unbuffer_append {kept : List (Entry β)} {entry : Entry β} {prevMaxEnd : Option Int}
    (hbuffered : st.buffered = kept ++ [entry]) :
    st.unbuffer cfg entry.startOffset entry.endOffset prevMaxEnd =
      some (entry, st.droppedState cfg entry prevMaxEnd) := by
  have herase : st.buffered.eraseIdx kept.length = st.buffered.dropLast := by
    simp [hbuffered, List.eraseIdx_append_of_length_le]
  simp only [unbuffer, lastOfRange_append hbuffered, herase]
  simp [hbuffered, droppedState]

end WriterState

end RelytIngest
