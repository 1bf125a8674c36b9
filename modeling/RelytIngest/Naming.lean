import RelytIngest.Error
import RelytIngest.Foundations.DecimalText
import RelytIngest.Foundations.MachineInteger
import Mathlib.Data.Nat.Bitwise

/-!
# Naming and the serial sequence

Every name a writer publishes derives from its OID-based `WriterIdentity` and from a `StagedFile`:
the staging directory, the object key, the serial group and the job identifier. `encodeSerialSeq`
packs an epoch of 43 bits and a seq of 20 bits into the number the server orders a group by.
`encodeSerialSeq_eq_ok_iff` says when it succeeds and with which value, `StagedFile.packed_lt_iff`
that the packed order is the lexicographic order of `(epoch, seq)`, and
`StagedFile.identifierText_inj` that the identifiers of one writer tell its files apart exactly as
`(epoch, seq)` does.

Texts are lists of characters. The wire integers are natural numbers and integers; the shift of
`encode_serial_seq` cannot leave 64 bits because the epoch was checked against 43 first.
-/

set_option autoImplicit false
set_option relaxedAutoImplicit false

namespace RelytIngest

open Foundations

def SEQ_BITS : Nat := 20

def MAX_SEQ : Nat := 1 <<< SEQ_BITS - 1

def MAX_EPOCH_MS : Nat := 1 <<< 43 - 1

def EPOCH_PAD : Nat := 13

def SEQ_PAD : Nat := 7

def IDENTIFIER_MAX_LEN : Nat := 128

theorem maxSeq_eq : MAX_SEQ = 1048575 := rfl

theorem maxEpochMs_eq : MAX_EPOCH_MS = 8796093022207 := rfl

/-- `encode_serial_seq`. -/
def encodeSerialSeq (epochMs seq : Nat) : Except Error Int :=
  if MAX_EPOCH_MS < epochMs then
    .error (.naming ("epoch " ++ toString epochMs ++ " exceeds 43 bits"))
  else if MAX_SEQ < seq then
    .error (.naming ("seq " ++ toString seq ++ " exceeds 20 bits"))
  else
    .ok ((epochMs <<< SEQ_BITS ||| seq : Nat) : Int)

/-- `decode_serial_seq`: the number is read as an unsigned 64-bit word first. -/
def decodeSerialSeq (serialSeq : Int) : Nat × Nat :=
  let word := (serialSeq % 2 ^ 64).toNat
  (word >>> SEQ_BITS, word &&& MAX_SEQ)

theorem encodeSerialSeq_eq_ok_iff (epochMs seq : Nat) (value : Int) :
    encodeSerialSeq epochMs seq = .ok value ↔
      epochMs ≤ MAX_EPOCH_MS ∧ seq ≤ MAX_SEQ ∧ value = epochMs * 2 ^ 20 + seq := by
  unfold encodeSerialSeq
  by_cases hepoch : MAX_EPOCH_MS < epochMs
  · simp [hepoch, Nat.not_le.mpr hepoch]
  by_cases hseq : MAX_SEQ < seq
  · simp [hepoch, hseq, Nat.not_le.mpr hseq]
  have hbound : seq < 2 ^ SEQ_BITS := by
    have := maxSeq_eq
    simp only [SEQ_BITS]
    omega
  have hpacked : epochMs <<< SEQ_BITS ||| seq = epochMs * 2 ^ 20 + seq := by
    rw [← Nat.shiftLeft_add_eq_or_of_lt hbound, Nat.shiftLeft_eq, SEQ_BITS]
  simp only [hepoch, hseq, if_false, hpacked, Except.ok.injEq, Nat.not_lt.mp hepoch,
    Nat.not_lt.mp hseq, true_and]
  push_cast
  exact eq_comm

/-- A non-negative 64-bit number is the packed value of what it decodes to. -/
theorem decodeSerialSeq_spec {serialSeq : Int} (hnonneg : 0 ≤ serialSeq)
    (hmax : serialSeq ≤ i64Max) :
    serialSeq = (decodeSerialSeq serialSeq).1 * 2 ^ 20 + (decodeSerialSeq serialSeq).2 ∧
      (decodeSerialSeq serialSeq).2 ≤ MAX_SEQ := by
  have hmask : MAX_SEQ = 2 ^ 20 - 1 := rfl
  have hword : serialSeq % 2 ^ 64 = serialSeq := by
    refine Int.emod_eq_of_lt hnonneg ?_
    simp only [i64Max] at hmax
    omega
  simp only [decodeSerialSeq, hword, SEQ_BITS, hmask, Nat.shiftRight_eq_div_pow,
    Nat.and_two_pow_sub_one_eq_mod]
  omega

/-- The OID-based identity every path and server-side name derives from. -/
structure WriterIdentity where
  clusterId : Text
  dbOid : Nat
  relOid : Nat
  writerId : Text
  deriving DecidableEq, Repr

namespace WriterIdentity

/-- `staging/<cluster_id>/<db_oid>/<rel_oid>/<writer_id>/`. -/
def stagingDir (ident : WriterIdentity) : Text :=
  "staging/".toList ++ ident.clusterId ++ '/' :: decimal ident.dbOid ++ '/' ::
    decimal ident.relOid ++ '/' :: ident.writerId ++ ['/']

/-- `<db_oid>:<rel_oid>:<writer_id>`. -/
def serialGroup (ident : WriterIdentity) : Text :=
  decimal ident.dbOid ++ ':' :: decimal ident.relOid ++ ':' :: ident.writerId

end WriterIdentity

/-- One staged CSV object, identified entirely by its name. -/
structure StagedFile where
  epochMs : Nat
  seq : Nat
  /-- Kafka offset range `[startOffset, endOffset]` covered by the file, inclusive. -/
  startOffset : Int
  endOffset : Int
  compressed : Bool
  deriving DecidableEq, Repr

namespace StagedFile

def serialSeq (file : StagedFile) : Except Error Int :=
  encodeSerialSeq file.epochMs file.seq

/-- The file name below the staging directory:
`<epoch:013>-<seq:07>-o<start>-<end>.csv[.gz]`. -/
def basename (file : StagedFile) : Text :=
  paddedDecimal EPOCH_PAD file.epochMs ++ '-' :: paddedDecimal SEQ_PAD file.seq ++ "-o".toList ++
    signedDecimal file.startOffset ++ '-' :: signedDecimal file.endOffset ++
    (if file.compressed then ".csv.gz".toList else ".csv".toList)

/-- Object key relative to the staging prefix. -/
def objectKey (file : StagedFile) (ident : WriterIdentity) : Text :=
  ident.stagingDir ++ file.basename

/-- The job identifier before its length is checked:
`<db_oid>:<rel_oid>:<writer_id>:<epoch>:<seq>`. -/
def identifierText (file : StagedFile) (ident : WriterIdentity) : Text :=
  ident.serialGroup ++ ':' :: decimal file.epochMs ++ ':' :: decimal file.seq

/-- `identifier`: the length in bytes is checked defensively. -/
def identifier (file : StagedFile) (ident : WriterIdentity) : Except Error Text :=
  if IDENTIFIER_MAX_LEN < ((file.identifierText ident).map Char.utf8Size).sum then
    .error (.naming ("identifier `" ++ String.ofList (file.identifierText ident) ++ "` exceeds " ++
      toString IDENTIFIER_MAX_LEN ++ " bytes"))
  else
    .ok (file.identifierText ident)

/-- `o` lies in the offset range the file covers. -/
def Covers (file : StagedFile) (o : Int) : Prop :=
  file.startOffset ≤ o ∧ o ≤ file.endOffset

instance (file : StagedFile) (o : Int) : Decidable (file.Covers o) :=
  inferInstanceAs (Decidable (_ ∧ _))

/-- The packed value of a file whose epoch and seq fit. -/
def packed (file : StagedFile) : Int := file.epochMs * 2 ^ 20 + file.seq

theorem serialSeq_eq_ok_iff (file : StagedFile) (value : Int) :
    file.serialSeq = .ok value ↔
      file.epochMs ≤ MAX_EPOCH_MS ∧ file.seq ≤ MAX_SEQ ∧ value = file.packed :=
  encodeSerialSeq_eq_ok_iff _ _ _

/-- The packed order of two files is the lexicographic order of their `(epoch, seq)`. -/
theorem packed_lt_iff {first second : StagedFile} (hfirst : first.seq ≤ MAX_SEQ)
    (hsecond : second.seq ≤ MAX_SEQ) :
    first.packed < second.packed ↔
      first.epochMs < second.epochMs ∨
        first.epochMs = second.epochMs ∧ first.seq < second.seq := by
  have := maxSeq_eq
  simp only [packed]
  omega

/-- Files of one writer share an identifier exactly when they share epoch and seq. -/
theorem identifierText_inj (first second : StagedFile) (ident : WriterIdentity) :
    first.identifierText ident = second.identifierText ident ↔
      first.epochMs = second.epochMs ∧ first.seq = second.seq := by
  constructor
  · intro h
    simp only [identifierText, List.append_assoc, List.append_cancel_left_eq, List.cons_append,
      List.cons.injEq, true_and] at h
    obtain ⟨hepoch, hseq⟩ := append_cons_inj (not_mem_decimal (by decide))
      (not_mem_decimal (by decide)) h
    exact ⟨decimal_injective hepoch, decimal_injective hseq⟩
  · rintro ⟨hepoch, hseq⟩
    simp only [identifierText, hepoch, hseq]

theorem identifier_eq_ok {file : StagedFile} {ident : WriterIdentity} {value : Text}
    (h : file.identifier ident = .ok value) : value = file.identifierText ident := by
  unfold identifier at h
  split_ifs at h
  exact (Except.ok.inj h).symm

end StagedFile

end RelytIngest
