import RelytIngest.Naming
import Mathlib.Data.Prod.Lex

/-!
# The serial seq as a machine word

`encode_serial_seq` and `decode_serial_seq` on the words of the source: a 64-bit epoch and a 32-bit
seq, and the signed word they are packed into. On words the shift drops what it moves past the top
and the cast may set the sign; `encodeSerialSeqWord_toInt` and `decodeSerialSeqWord_toNat` say that
neither happens, so the functions compute what `encodeSerialSeq` and `decodeSerialSeq` compute on
numbers.

`serial_seq_order_iso`: the pairs of an epoch of 43 bits and a seq of 20 bits in their lexicographic
order are the non-negative signed words in theirs.
-/

set_option autoImplicit false
set_option relaxedAutoImplicit false

namespace RelytIngest

open Foundations

/-- `encode_serial_seq`. -/
def encodeSerialSeqWord (epochMs : UInt64) (seq : UInt32) : Except Error Int64 :=
  if UInt64.ofNat MAX_EPOCH_MS < epochMs then
    .error (.naming ("epoch " ++ toString epochMs ++ " exceeds 43 bits"))
  else if UInt32.ofNat MAX_SEQ < seq then
    .error (.naming ("seq " ++ toString seq ++ " exceeds 20 bits"))
  else
    .ok (epochMs <<< UInt64.ofNat SEQ_BITS ||| seq.toUInt64).toInt64

/-- `decode_serial_seq`. -/
def decodeSerialSeqWord (serialSeq : Int64) : UInt64 × UInt32 :=
  let v := serialSeq.toUInt64
  (v >>> UInt64.ofNat SEQ_BITS, (v &&& UInt64.ofNat MAX_SEQ).toUInt32)

/-! ### From words to numbers -/

section Words

variable {epochMs : UInt64} {seq : UInt32} {serialSeq : Int64}

/-- The unsigned reading of a signed word. -/
theorem toNat_toUInt64_eq (serialSeq : Int64) :
    (serialSeq.toUInt64.toNat : Int) = serialSeq.toInt % 2 ^ 64 := by
  have hsigned := BitVec.toInt_eq_toNat_cond serialSeq.toBitVec
  have hword : serialSeq.toUInt64.toNat = serialSeq.toBitVec.toNat := rfl
  have hlt := serialSeq.toBitVec.isLt
  rw [Int64.toInt_toBitVec] at hsigned
  rw [hword, hsigned]
  split_ifs <;> omega

/-- A word below half the range is the same number when it is read as signed. -/
theorem toInt_toInt64_eq {word : UInt64} (hword : word.toNat < 2 ^ 63) :
    word.toInt64.toInt = word.toNat := by
  have hsigned := BitVec.toInt_eq_toNat_cond word.toInt64.toBitVec
  have hsame : word.toInt64.toBitVec.toNat = word.toNat := rfl
  rw [Int64.toInt_toBitVec, hsame] at hsigned
  rw [hsigned, if_pos (by omega)]

theorem toNat_packed (hepoch : epochMs.toNat ≤ MAX_EPOCH_MS) :
    (epochMs <<< UInt64.ofNat SEQ_BITS ||| seq.toUInt64).toNat =
      epochMs.toNat <<< SEQ_BITS ||| seq.toNat := by
  have hfits : epochMs.toNat <<< SEQ_BITS < 2 ^ 64 := by
    rw [Nat.shiftLeft_eq, SEQ_BITS]
    rw [maxEpochMs_eq] at hepoch
    omega
  rw [UInt64.toNat_or, UInt64.toNat_shiftLeft, UInt32.toNat_toUInt64]
  have hbits : (UInt64.ofNat SEQ_BITS).toNat % 64 = SEQ_BITS := rfl
  rw [hbits, Nat.mod_eq_of_lt hfits]

/-- On words the encoding succeeds and fails as on numbers, with the same value and errors. -/
theorem encodeSerialSeqWord_toInt (epochMs : UInt64) (seq : UInt32) :
    (encodeSerialSeqWord epochMs seq).map Int64.toInt =
      encodeSerialSeq epochMs.toNat seq.toNat := by
  have hepochIff : UInt64.ofNat MAX_EPOCH_MS < epochMs ↔ MAX_EPOCH_MS < epochMs.toNat :=
    UInt64.lt_iff_toNat_lt
  have hseqIff : UInt32.ofNat MAX_SEQ < seq ↔ MAX_SEQ < seq.toNat := UInt32.lt_iff_toNat_lt
  by_cases hepoch : MAX_EPOCH_MS < epochMs.toNat
  · rw [encodeSerialSeqWord, encodeSerialSeq, if_pos (hepochIff.mpr hepoch), if_pos hepoch]
    rfl
  by_cases hseq : MAX_SEQ < seq.toNat
  · rw [encodeSerialSeqWord, encodeSerialSeq, if_neg (mt hepochIff.mp hepoch),
      if_pos (hseqIff.mpr hseq), if_neg hepoch, if_pos hseq]
    rfl
  have hencoded := (encodeSerialSeq_eq_ok_iff epochMs.toNat seq.toNat _).mpr
    ⟨not_lt.mp hepoch, not_lt.mp hseq, rfl⟩
  have hvalue : ((epochMs.toNat <<< SEQ_BITS ||| seq.toNat : Nat) : Int) =
      epochMs.toNat * 2 ^ 20 + seq.toNat := by
    rw [encodeSerialSeq, if_neg hepoch, if_neg hseq] at hencoded
    exact Except.ok.inj hencoded
  -- the sign bit stays clear
  have hfits : (epochMs <<< UInt64.ofNat SEQ_BITS ||| seq.toUInt64).toNat < 2 ^ 63 := by
    rw [toNat_packed (not_lt.mp hepoch)]
    rw [maxEpochMs_eq] at hepoch
    rw [maxSeq_eq] at hseq
    omega
  rw [encodeSerialSeqWord, if_neg (mt hepochIff.mp hepoch), if_neg (mt hseqIff.mp hseq),
    Except.map, toInt_toInt64_eq hfits, toNat_packed (not_lt.mp hepoch), encodeSerialSeq,
    if_neg hepoch, if_neg hseq]

/-- On words the decoding is that on numbers. -/
theorem decodeSerialSeqWord_toNat (serialSeq : Int64) :
    ((decodeSerialSeqWord serialSeq).1.toNat, (decodeSerialSeqWord serialSeq).2.toNat) =
      decodeSerialSeq serialSeq.toInt := by
  have hword : (serialSeq.toInt % 2 ^ 64).toNat = serialSeq.toUInt64.toNat := by
    rw [← toNat_toUInt64_eq, Int.toNat_natCast]
  have hmask : (UInt64.ofNat MAX_SEQ).toNat = MAX_SEQ := rfl
  have hbits : (UInt64.ofNat SEQ_BITS).toNat % 64 = SEQ_BITS := rfl
  have hseq : serialSeq.toUInt64.toNat &&& MAX_SEQ < 2 ^ 32 :=
    Nat.and_le_right.trans_lt (by decide)
  simp only [decodeSerialSeqWord, decodeSerialSeq, hword, UInt64.toNat_shiftRight, hbits,
    UInt64.toNat_toUInt32, UInt64.toNat_and, hmask, Nat.mod_eq_of_lt hseq]

theorem encodeSerialSeqWord_eq_ok_iff :
    encodeSerialSeqWord epochMs seq = .ok serialSeq ↔
      epochMs.toNat ≤ MAX_EPOCH_MS ∧ seq.toNat ≤ MAX_SEQ ∧
        serialSeq.toInt = epochMs.toNat * 2 ^ 20 + seq.toNat := by
  rw [← encodeSerialSeq_eq_ok_iff, ← encodeSerialSeqWord_toInt]
  cases encodeSerialSeqWord epochMs seq with
  | error err => simp [Except.map]
  | ok encoded => simp [Except.map, Int64.toInt_inj]

end Words

/-! ### The order isomorphism -/

/-- What `encode_serial_seq` and `decode_serial_seq` are to the lexicographic order of
`(epoch, seq)` and the order of the serial seqs. -/
structure SerialSeqIso : Prop where
  succeeds : ∀ epochMs seq, (∃ serialSeq, encodeSerialSeqWord epochMs seq = .ok serialSeq) ↔
    epochMs.toNat ≤ 2 ^ 43 - 1 ∧ seq.toNat ≤ 2 ^ 20 - 1
  image : ∀ serialSeq, (∃ epochMs seq, encodeSerialSeqWord epochMs seq = .ok serialSeq) ↔
    0 ≤ serialSeq
  decode_encode : ∀ epochMs seq serialSeq, encodeSerialSeqWord epochMs seq = .ok serialSeq →
    decodeSerialSeqWord serialSeq = (epochMs, seq)
  encode_decode : ∀ serialSeq : Int64, 0 ≤ serialSeq →
    encodeSerialSeqWord (decodeSerialSeqWord serialSeq).1 (decodeSerialSeqWord serialSeq).2 =
      .ok serialSeq
  order : ∀ epochMs seq serialSeq epochMs' seq' serialSeq',
    encodeSerialSeqWord epochMs seq = .ok serialSeq →
      encodeSerialSeqWord epochMs' seq' = .ok serialSeq' →
        (toLex (epochMs, seq) < toLex (epochMs', seq') ↔ serialSeq < serialSeq')

/-- A non-negative word is encoded by what it decodes to. -/
theorem encode_decodeSerialSeqWord {serialSeq : Int64} (hnonneg : 0 ≤ serialSeq) :
    encodeSerialSeqWord (decodeSerialSeqWord serialSeq).1 (decodeSerialSeqWord serialSeq).2 =
      .ok serialSeq := by
  have hmin : 0 ≤ serialSeq.toInt := Int64.le_iff_toInt_le.mp hnonneg
  have hmax : serialSeq.toInt ≤ i64Max := serialSeq.toInt_le
  obtain ⟨hvalue, hseq⟩ := decodeSerialSeq_spec hmin hmax
  have hdecoded := decodeSerialSeqWord_toNat serialSeq
  rw [← hdecoded] at hvalue hseq
  refine encodeSerialSeqWord_eq_ok_iff.mpr ⟨?_, hseq, hvalue⟩
  dsimp only at hvalue
  rw [maxEpochMs_eq]
  simp only [i64Max] at hmax
  omega

/-- A word that encodes a pair decodes to it. -/
theorem decode_encodeSerialSeqWord {epochMs : UInt64} {seq : UInt32} {serialSeq : Int64}
    (hencode : encodeSerialSeqWord epochMs seq = .ok serialSeq) :
    decodeSerialSeqWord serialSeq = (epochMs, seq) := by
  obtain ⟨-, hseq, hvalue⟩ := encodeSerialSeqWord_eq_ok_iff.mp hencode
  have hmin : 0 ≤ serialSeq.toInt := by omega
  obtain ⟨hdecoded, hlow⟩ := decodeSerialSeq_spec hmin serialSeq.toInt_le
  rw [← decodeSerialSeqWord_toNat] at hdecoded hlow
  dsimp only at hdecoded hlow
  rw [maxSeq_eq] at hseq hlow
  have hepochs : (decodeSerialSeqWord serialSeq).1.toNat = epochMs.toNat := by omega
  have hseqs : (decodeSerialSeqWord serialSeq).2.toNat = seq.toNat := by omega
  exact Prod.ext (UInt64.toNat_inj.mp hepochs) (UInt32.toNat_inj.mp hseqs)

theorem encodeSerialSeqWord_lt_iff {epochMs epochMs' : UInt64} {seq seq' : UInt32}
    {serialSeq serialSeq' : Int64} (hencode : encodeSerialSeqWord epochMs seq = .ok serialSeq)
    (hencode' : encodeSerialSeqWord epochMs' seq' = .ok serialSeq') :
    toLex (epochMs, seq) < toLex (epochMs', seq') ↔ serialSeq < serialSeq' := by
  obtain ⟨-, hseq, hvalue⟩ := encodeSerialSeqWord_eq_ok_iff.mp hencode
  obtain ⟨-, hseq', hvalue'⟩ := encodeSerialSeqWord_eq_ok_iff.mp hencode'
  rw [maxSeq_eq] at hseq hseq'
  simp only [Prod.Lex.toLex_lt_toLex, UInt64.lt_iff_toNat_lt, UInt32.lt_iff_toNat_lt,
    ← UInt64.toNat_inj, Int64.lt_iff_toInt_lt, hvalue, hvalue']
  omega

/-- Packing an epoch and a seq is an order isomorphism onto the non-negative words. -/
theorem serial_seq_order_iso : SerialSeqIso where
  succeeds epochMs seq := by
    refine ⟨fun ⟨serialSeq, hencode⟩ ↦ ?_, fun ⟨hepoch, hseq⟩ ↦ ?_⟩
    · obtain ⟨hepoch, hseq, -⟩ := encodeSerialSeqWord_eq_ok_iff.mp hencode
      exact ⟨hepoch, hseq⟩
    · have hencoded := (encodeSerialSeq_eq_ok_iff epochMs.toNat seq.toNat _).mpr
        ⟨hepoch, hseq, rfl⟩
      rw [← encodeSerialSeqWord_toInt] at hencoded
      cases hword : encodeSerialSeqWord epochMs seq with
      | error err => simp [hword, Except.map] at hencoded
      | ok serialSeq => exact ⟨serialSeq, rfl⟩
  image serialSeq := by
    refine ⟨fun ⟨epochMs, seq, hencode⟩ ↦ ?_, fun hnonneg ↦
      ⟨_, _, encode_decodeSerialSeqWord hnonneg⟩⟩
    obtain ⟨-, -, hvalue⟩ := encodeSerialSeqWord_eq_ok_iff.mp hencode
    have hmin : (0 : Int64).toInt ≤ serialSeq.toInt := by
      rw [hvalue]
      simp only [Int64.toInt_zero]
      omega
    exact Int64.le_iff_toInt_le.mpr hmin
  decode_encode _ _ _ := decode_encodeSerialSeqWord
  encode_decode _ := encode_decodeSerialSeqWord
  order _ _ _ _ _ _ := encodeSerialSeqWord_lt_iff

end RelytIngest
