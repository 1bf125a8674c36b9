import RelytIngest.Dedup.KeyEncoding
import RelytIngest.Foundations.DecimalValue
import RelytIngest.Naming

/-!
# Key order is numeric order

Object stores list keys in the order of their bytes. Within one directory that is the order of the
`(epoch, seq)` pairs and of the serial seqs (`key_order`): both numbers are padded to a width that
their largest value fits in, so the names of a directory are compared field by field
(`textBytes_field_lt_iff`), and digits of one length are in the order of their values.
-/

set_option autoImplicit false
set_option relaxedAutoImplicit false

namespace RelytIngest

open Foundations

/-! ### The bytes of digits -/

/-- The byte of an ASCII character. -/
def asciiByte (c : Char) : UInt8 := UInt8.ofNat c.toNat

theorem textBytes_append (front back : Text) :
    textBytes (front ++ back) = textBytes front ++ textBytes back :=
  List.flatMap_append

/-- A digit takes one byte. -/
theorem utf8EncodeChar_digit {c : Char} (hc : c.isDigit) :
    String.utf8EncodeChar c = [asciiByte c] := by
  have hascii : c.val.toNat ≤ 0x7f := by
    have hbound : c.toNat ≤ 57 := (toNat_of_isDigit hc).2
    have hsame : c.val.toNat = c.toNat := rfl
    omega
  rw [String.utf8EncodeChar]
  exact if_pos hascii

theorem textBytes_digits {digits : Text} (hdigits : ∀ c ∈ digits, c.isDigit) :
    textBytes digits = digits.map asciiByte := by
  induction digits with
  | nil => rfl
  | cons c rest ih =>
    rw [List.forall_mem_cons] at hdigits
    rw [textBytes, List.flatMap_cons, utf8EncodeChar_digit hdigits.1, List.map_cons,
      List.singleton_append, ← ih hdigits.2]
    rfl

/-- Digits have different bytes, in the order of the digits. -/
theorem asciiByte_digits (c d : Char) (hc : c.isDigit) (hd : d.isDigit) :
    (asciiByte c < asciiByte d ↔ c.toNat < d.toNat) ∧ (asciiByte c = asciiByte d → c = d) := by
  have hc := (toNat_of_isDigit hc).2
  have hd := (toNat_of_isDigit hd).2
  have hbyte {n : Nat} (hn : n ≤ 57) : (UInt8.ofNat n).toNat = n := by
    rw [UInt8.toNat_ofNat']
    omega
  constructor
  · rw [UInt8.lt_iff_toNat_lt, asciiByte, asciiByte, hbyte hc, hbyte hd]
  · intro heq
    have hvalue := congrArg UInt8.toNat heq
    rw [asciiByte, asciiByte, hbyte hc, hbyte hd] at hvalue
    exact Char.toNat_inj.mp hvalue

/-- A padded number in front decides, and where it is the same what follows does. -/
theorem textBytes_field_lt_iff {width a b : Nat} (hwidth : 0 < width) (ha : a < 10 ^ width)
    (hb : b < 10 ^ width) (rest rest' : Text) :
    textBytes (paddedDecimal width a ++ rest) < textBytes (paddedDecimal width b ++ rest') ↔
      a < b ∨ a = b ∧ textBytes rest < textBytes rest' := by
  have hdigits (n : Nat) : ∀ c ∈ paddedDecimal width n, c.isDigit :=
    fun _ hc ↦ isDigit_of_mem_paddedDecimal hc
  have hlengths : (paddedDecimal width a).length = (paddedDecimal width b).length := by
    rw [length_paddedDecimal hwidth ha, length_paddedDecimal hwidth hb]
  have hless : textBytes (paddedDecimal width a) < textBytes (paddedDecimal width b) ↔ a < b := by
    rw [textBytes_digits (hdigits a), textBytes_digits (hdigits b),
      map_lt_map_iff asciiByte_digits hlengths (hdigits a) (hdigits b), readDecimal_paddedDecimal,
      readDecimal_paddedDecimal]
  have hsame : textBytes (paddedDecimal width a) = textBytes (paddedDecimal width b) ↔ a = b :=
    (textBytes_injective.comp (paddedDecimal_injective width)).eq_iff
  rw [textBytes_append, textBytes_append, append_lt_append_iff, hless, hsame]
  rw [textBytes_digits (hdigits a), textBytes_digits (hdigits b), List.length_map, List.length_map,
    hlengths]

/-- A text in front of both is passed over. -/
theorem textBytes_append_lt_iff (front rest rest' : Text) :
    textBytes (front ++ rest) < textBytes (front ++ rest') ↔ textBytes rest < textBytes rest' := by
  rw [textBytes_append, textBytes_append, append_lt_append_iff rfl]
  simp [List.lt_irrefl]

theorem textBytes_cons_lt_iff (c : Char) (rest rest' : Text) :
    textBytes (c :: rest) < textBytes (c :: rest') ↔ textBytes rest < textBytes rest' :=
  textBytes_append_lt_iff [c] rest rest'

/-! ### Keys of one directory -/

/-- The order of the keys of two files of one writer with different `(epoch, seq)`, of these pairs
and of the serial seqs. -/
structure SameOrder (ident : WriterIdentity) (first second : StagedFile) : Prop where
  pairs : textBytes (first.objectKey ident) < textBytes (second.objectKey ident) ↔
    first.epochMs < second.epochMs ∨ first.epochMs = second.epochMs ∧ first.seq < second.seq
  serials : ∃ serial serial', first.serialSeq = .ok serial ∧ second.serialSeq = .ok serial' ∧
    (textBytes (first.objectKey ident) < textBytes (second.objectKey ident) ↔ serial < serial')

theorem objectKey_lt_iff (ident : WriterIdentity) {first second : StagedFile}
    (hfirst : first.epochMs ≤ MAX_EPOCH_MS ∧ first.seq ≤ MAX_SEQ)
    (hsecond : second.epochMs ≤ MAX_EPOCH_MS ∧ second.seq ≤ MAX_SEQ)
    (hdifferent : (first.epochMs, first.seq) ≠ (second.epochMs, second.seq)) :
    textBytes (first.objectKey ident) < textBytes (second.objectKey ident) ↔
      first.epochMs < second.epochMs ∨ first.epochMs = second.epochMs ∧ first.seq < second.seq := by
  have hepochs := maxEpochMs_eq
  have hseqs := maxSeq_eq
  have hdash : "-o".toList = ['-', 'o'] := rfl
  rw [StagedFile.objectKey, StagedFile.objectKey, textBytes_append_lt_iff, StagedFile.basename,
    StagedFile.basename, hdash]
  simp only [List.append_assoc, List.cons_append]
  rw [textBytes_field_lt_iff (by decide) (by rw [EPOCH_PAD]; omega) (by rw [EPOCH_PAD]; omega)]
  refine or_congr_right (and_congr_right fun hepoch ↦ ?_)
  rw [textBytes_cons_lt_iff,
    textBytes_field_lt_iff (by decide) (by rw [SEQ_PAD]; omega) (by rw [SEQ_PAD]; omega)]
  refine or_iff_left fun hsame ↦ hdifferent ?_
  rw [hepoch, hsame.1]

/-- The keys of a writer are listed in the order in which its files were sealed. -/
theorem key_order (ident : WriterIdentity) {first second : StagedFile}
    (hfirst : first.epochMs ≤ MAX_EPOCH_MS ∧ first.seq ≤ MAX_SEQ)
    (hsecond : second.epochMs ≤ MAX_EPOCH_MS ∧ second.seq ≤ MAX_SEQ)
    (hdifferent : (first.epochMs, first.seq) ≠ (second.epochMs, second.seq)) :
    SameOrder ident first second where
  pairs := objectKey_lt_iff ident hfirst hsecond hdifferent
  serials := by
    refine ⟨first.packed, second.packed, ?_, ?_, ?_⟩
    · exact (first.serialSeq_eq_ok_iff _).mpr ⟨hfirst.1, hfirst.2, rfl⟩
    · exact (second.serialSeq_eq_ok_iff _).mpr ⟨hsecond.1, hsecond.2, rfl⟩
    · rw [objectKey_lt_iff ident hfirst hsecond hdifferent,
        StagedFile.packed_lt_iff hfirst.2 hsecond.2]

theorem key_order_maxima :
    SameOrder ⟨"c".toList, 1, 2, "w".toList⟩ ⟨MAX_EPOCH_MS - 1, MAX_SEQ, 5, 9, true⟩
      ⟨MAX_EPOCH_MS, 0, 0, 4, false⟩ :=
  key_order _ ⟨by decide, by decide⟩ ⟨by decide, by decide⟩ (by decide)

end RelytIngest
