import RelytIngest.Writer.OrderTripwire

/-!
# Dense numbering and the tripwire

The number of a file and the check of the put stage agree: the `n`-th file a session seals carries
the serial seq `n` above the first one of its epoch, across every roll-over, so `checkOrder` lets
the sealed files through in their order.

`SealState.sealBuffer` is `seal` with the list that the state of the writer leaves out, the files
known to the lag sampler. A seal that fails has rolled the epoch over and changes nothing else
(`SealState.sealBuffer_error`).
-/

set_option autoImplicit false
set_option relaxedAutoImplicit false

namespace RelytIngest

open Foundations

/-- What `seal` writes: the state of the writer, and the sealed files with the time of their seal
that the lag sampler reads. -/
structure SealState (β : Type) where
  st : WriterState β
  knownFiles : List (Int × Nat)
  deriving DecidableEq, Repr

namespace SealState

variable {β : Type} {cfg : WriterConfig β} {s after : SealState β} {now nowMs : Nat}
  {agedOnly : Bool}

/-- `seal`, with the monotonic clock and the wall clock it reads. -/
def sealBuffer (cfg : WriterConfig β) (s : SealState β) (now nowMs : Nat) (agedOnly : Bool) :
    Except Error (Option (Sealed β)) × SealState β :=
  match s.st.sealBuffer cfg now agedOnly with
  | (.ok (some sealed), st) =>
    (.ok (some sealed),
      { st := st
        knownFiles := s.knownFiles ++ [(sealed.fileMeta.serialSeq, nowMs)] })
  | (result, st) => (result, { s with st := st })

/-- No batch of `s` is consumed in `after`, and no file of it announced. -/
structure Unconsumed (s after : SealState β) : Prop where
  buffered : after.st.buffered = s.st.buffered
  bufferedRows : after.st.bufferedRows = s.st.bufferedRows
  lastSealedSeq : after.st.lastSealedSeq = s.st.lastSealedSeq
  knownFiles : after.knownFiles = s.knownFiles
  inFlight : after.st.inFlight = s.st.inFlight

/-- A seal that fails has done nothing but the roll-over. -/
theorem sealBuffer_error {err : Error}
    (hseal : s.sealBuffer cfg now nowMs agedOnly = (.error err, after)) :
    after = { s with st := s.st.rolled } := by
  unfold sealBuffer at hseal
  split at hseal
  · simp at hseal
  · next result st hbuffer =>
    obtain ⟨rfl, rfl⟩ := Prod.mk.inj hseal
    rw [(WriterState.sealBuffer_error hbuffer).1]

theorem sealBuffer_unconsumed {err : Error}
    (hseal : s.sealBuffer cfg now nowMs agedOnly = (.error err, after)) : s.Unconsumed after := by
  rw [sealBuffer_error hseal, WriterState.rolled_eq]
  exact ⟨rfl, rfl, rfl, rfl, rfl⟩

end SealState

namespace Writer

variable {β : Type} {cfg : WriterConfig β} {epochMs : Nat}
  {stagedOffset resumePersisted : Option Int} {w : Writer β}

/-- The numbering of the files sealed so far, and what the tripwire makes of it. -/
structure DenseSeals (epochMs : Nat) (w : Writer β) : Prop where
  numbered : ∀ (n : Nat) (cut : Cut β), w.trace.cuts[n]? = some cut →
    ∃ base, encodeSerialSeq epochMs 0 = .ok base ∧ cut.fileMeta.serialSeq = base + n
  /-- No serial seq is used twice. -/
  increasing : w.trace.cuts.Pairwise fun first second ↦
    first.fileMeta.serialSeq < second.fileMeta.serialSeq
  ordered : w.sealedFiles.IsChain fun file next ↦ checkOrder (some file.place) next = .ok ()
  /-- Delivered in their order the files are put, all of them. -/
  delivered : putArrivals none w.sealedFiles = (w.sealedFiles, none)

/-- A chain of files that the tripwire lets through is put to its end. -/
theorem putArrivals_of_isChain {first : StagedFile} {later : List StagedFile}
    (hchain : (first :: later).IsChain fun file next ↦ checkOrder (some file.place) next = .ok ()) :
    putArrivals (some first.place) later = (later, none) := by
  induction later generalizing first with
  | nil => rfl
  | cons next rest ih =>
    rw [List.isChain_cons_cons] at hchain
    simp only [putArrivals, hchain.1, ih hchain.2]

theorem ReachableFrom.sealed_ordered
    (hreach : ReachableFrom cfg epochMs stagedOffset resumePersisted w) :
    w.sealedFiles.IsChain fun file next ↦ checkOrder (some file.place) next = .ok () := by
  refine List.IsChain.imp_of_mem_imp (fun file next hfile hnext hpacked ↦ ?_)
    hreach.sealed_consecutive
  exact (checkOrder_eq_ok_iff (hreach.sealed_seq_le hfile) (hreach.sealed_seq_le hnext)).mpr
    (.inl hpacked)

/-- The `n`-th file sealed carries the `n`-th serial seq of the session. -/
theorem ReachableFrom.sealed_number
    (hreach : ReachableFrom cfg epochMs stagedOffset resumePersisted w) {n : Nat} {cut : Cut β}
    (hcut : w.trace.cuts[n]? = some cut) :
    ∃ base, encodeSerialSeq epochMs 0 = .ok base ∧ cut.fileMeta.serialSeq = base + n := by
  have hnamed := hreach.rows.2
  have hmem : cut ∈ w.trace.cuts := List.mem_of_getElem? hcut
  have hepoch : epochMs ≤ MAX_EPOCH_MS :=
    (hnamed.epochs cut hmem).trans (hnamed.wellFormed cut hmem).encodes.1
  have hserials : w.trace.cuts.map (fun cut ↦ cut.fileMeta.serialSeq) =
      Rows.serialsFrom epochMs w.trace.cuts.length := hreach.dense.serials
  have hentry := congrArg (fun serials ↦ serials[n]?) hserials
  obtain ⟨hcount, hget⟩ := List.getElem?_eq_some_iff.mp hcut
  refine ⟨(epochMs : Int) * 2 ^ 20, ?_, ?_⟩
  · rw [encodeSerialSeq_eq_ok_iff]
    exact ⟨hepoch, Nat.zero_le _, by simp⟩
  · simpa [Rows.serialsFrom, hcount, hget] using hentry

/-- Seals are numbered densely, the tripwire lets the files through in order, and a seal that fails
consumes nothing. -/
theorem seals_dense (cfg : WriterConfig β) (epochMs : Nat) (stagedOffset resumePersisted : Option Int)
    (hreach : ReachableFrom cfg epochMs stagedOffset resumePersisted w) :
    w.DenseSeals epochMs ∧
      ∀ (s after : SealState β) (now nowMs : Nat) (agedOnly : Bool) (err : Error),
        s.sealBuffer cfg now nowMs agedOnly = (.error err, after) → s.Unconsumed after := by
  refine ⟨⟨fun n cut ↦ hreach.sealed_number, hreach.rows.2.increasing, hreach.sealed_ordered, ?_⟩,
    fun s after now nowMs agedOnly err ↦ SealState.sealBuffer_unconsumed⟩
  have hordered := hreach.sealed_ordered
  cases hfiles : w.sealedFiles with
  | nil => rfl
  | cons first later =>
    rw [hfiles] at hordered
    simp only [putArrivals, checkOrder, putArrivals_of_isChain hordered]

/-- After two seals. -/
theorem seals_dense_twice :
    sealedTwice.DenseSeals 1 ∧
      ∀ (s after : SealState RecordBatch) (now nowMs : Nat) (agedOnly : Bool) (err : Error),
        s.sealBuffer sampleConfig now nowMs agedOnly = (.error err, after) → s.Unconsumed after :=
  seals_dense sampleConfig 1 none none sealedTwice_reachable

end Writer

end RelytIngest
