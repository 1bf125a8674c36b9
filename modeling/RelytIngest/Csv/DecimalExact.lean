import RelytIngest.Csv.CellText
import RelytIngest.Foundations.DecimalValue
import RelytIngest.Foundations.TextCut
import Mathlib.Algebra.Order.Field.Rat
import Mathlib.Tactic.FieldSimp
import Mathlib.Tactic.Ring

/-!
# Decimals are exact

The digits of a decimal are produced from the last one on into a buffer of 40 bytes.
`bufferedDigits_eq` says that the 39 digits of the largest magnitude and every other number fit and
that the buffer then holds the decimal digits, so the text is the one with the point placed among
them. `decimal_exact` reads this text as a rational number: it is the raw value shifted by the
scale, with as many digits behind the point as the scale says.
-/

set_option autoImplicit false
set_option relaxedAutoImplicit false

namespace RelytIngest

open Foundations

/-! ### The buffer -/

/-- The loop that writes the digits backwards into the buffer; without a place for the next digit
the index underflows. -/
def fillDigits : Nat → Nat → Text → Option (Nat × Text)
  | 0, n, buf => if n = 0 then some (0, buf) else none
  | start + 1, n, buf =>
    if n = 0 then some (start + 1, buf)
    else fillDigits start (n / 10) (buf.set start (Nat.digitChar (n % 10)))

/-- The digits of a magnitude as `write_decimal128` finds them in its buffer. -/
def bufferedDigits (n : Nat) : Option Text :=
  let buf := List.replicate 40 '0'
  if n = 0 then some (buf.drop (buf.length - 1))
  else (fillDigits buf.length n buf).map fun filled ↦ filled.2.drop filled.1

/-- `write_decimal128`, with the buffer. -/
def bufferedDecimal128 (raw scale : Int) : Option Text :=
  if scale ≤ 0 then
    some (signedDecimal raw ++ List.replicate ((-scale).bmod (2 ^ 8)).toNat '0')
  else
    (bufferedDigits raw.natAbs).map fun digits ↦
      (if raw < 0 then ['-'] else []) ++ placePoint digits scale.toNat

/-- A number ends with its last digit. -/
theorem decimal_eq_append (n : Nat) :
    decimal n = (if n / 10 = 0 then [] else decimal (n / 10)) ++ [Nat.digitChar (n % 10)] := by
  unfold decimal
  by_cases hsmall : n < 10
  · rw [if_pos (Nat.div_eq_of_lt hsmall), Nat.toDigits_of_lt_base hsmall, Nat.mod_eq_of_lt hsmall,
      List.nil_append]
  · have hlarge : 10 ≤ n := Nat.not_lt.mp hsmall
    rw [if_neg (by omega), Nat.toDigits_of_base_le (by decide) hlarge]

/-- Where the digits of a number fit in front of a place, they end up right before it. -/
theorem fillDigits_eq (start n : Nat) (buf : Text) (hstart : start ≤ buf.length)
    (hfits : n < 10 ^ start) :
    ∃ filled, fillDigits start n buf = some filled ∧
      filled.2.drop filled.1 = (if n = 0 then [] else decimal n) ++ buf.drop start := by
  induction start generalizing n buf with
  | zero =>
    have hzero : n = 0 := Nat.lt_one_iff.mp hfits
    exact ⟨(0, buf), if_pos hzero, by rw [if_pos hzero, List.nil_append]⟩
  | succ start ih =>
    rw [fillDigits]
    by_cases hzero : n = 0
    · exact ⟨(start + 1, buf), if_pos hzero, by rw [if_pos hzero, List.nil_append]⟩
    · rw [if_neg hzero, if_neg hzero]
      obtain ⟨filled, hfill, hdrop⟩ := ih (n / 10) (buf.set start (Nat.digitChar (n % 10)))
        (by rw [List.length_set]; omega) (by rw [Nat.pow_succ] at hfits; omega)
      have hplace : start < (buf.set start (Nat.digitChar (n % 10))).length := by
        rw [List.length_set]
        omega
      have hdigit : (buf.set start (Nat.digitChar (n % 10))).drop start =
          Nat.digitChar (n % 10) :: buf.drop (start + 1) := by
        rw [List.drop_eq_getElem_cons hplace, List.getElem_set_self,
          List.drop_set_of_lt (Nat.lt_succ_self start)]
      refine ⟨filled, hfill, ?_⟩
      rw [hdrop, hdigit, decimal_eq_append n, List.append_assoc, List.singleton_append]

/-- The buffer holds the decimal digits of every number it has the places for. -/
theorem bufferedDigits_eq {n : Nat} (hn : n < 10 ^ 40) : bufferedDigits n = some (decimal n) := by
  unfold bufferedDigits
  by_cases hzero : n = 0
  · subst hzero
    decide
  · obtain ⟨filled, hfill, hdrop⟩ := fillDigits_eq 40 n (List.replicate 40 '0') (by decide) hn
    have hlength : (List.replicate 40 '0').length = 40 := rfl
    simp only [hlength]
    rw [if_neg hzero, hfill, Option.map_some, hdrop, if_neg hzero]
    simp

theorem bufferedDecimal128_eq (raw : Signed 128) (scale : Int) :
    bufferedDecimal128 raw.value scale = some (decimal128Text raw.value scale) := by
  have hlower := raw.lower
  have hupper := raw.upper
  norm_num at hlower hupper
  unfold bufferedDecimal128 decimal128Text
  by_cases hscale : scale ≤ 0
  · rw [if_pos hscale, if_pos hscale]
  · rw [if_neg hscale, if_neg hscale, bufferedDigits_eq (by omega), Option.map_some]

/-! ### The number that a text denotes -/

/-- Digits, or digits with a point among them. -/
def readMagnitude (text : Text) : Option ℚ :=
  match splitOnce '.' text with
  | none => (digitsValue text).map fun value : Nat ↦ (value : ℚ)
  | some (whole, fraction) => do
    let units ← digitsValue whole
    let parts ← digitsValue fraction
    return units + parts / 10 ^ fraction.length

/-- A number in plain notation, with a minus sign in front where it is negative. -/
def readNumber (text : Text) : Option ℚ :=
  match text with
  | '-' :: magnitude => (readMagnitude magnitude).map fun value ↦ -value
  | _ => readMagnitude text

/-- What a point makes of the digits of a number. -/
theorem placePoint_decimal (n places : Nat) :
    ∃ whole fraction, placePoint (decimal n) places = whole ++ '.' :: fraction ∧ whole ≠ [] ∧
      (∀ c ∈ whole, c.isDigit) ∧ (∀ c ∈ fraction, c.isDigit) ∧ fraction.length = places ∧
      readDecimal (whole ++ fraction) = n := by
  have hdigits : ∀ c ∈ decimal n, c.isDigit := fun _ ↦ isDigit_of_mem_decimal
  unfold placePoint
  by_cases hfits : places < (decimal n).length
  · rw [if_pos hfits]
    refine ⟨_, _, rfl, ?_, fun c hc ↦ hdigits c (List.mem_of_mem_take hc),
      fun c hc ↦ hdigits c (List.mem_of_mem_drop hc), ?_, ?_⟩
    · refine List.ne_nil_of_length_pos ?_
      rw [List.length_take]
      omega
    · rw [List.length_drop]
      omega
    · rw [List.take_append_drop, readDecimal_decimal]
  · rw [if_neg hfits]
    have hpoint : "0.".toList = ['0', '.'] := rfl
    refine ⟨['0'], List.replicate (places - (decimal n).length) '0' ++ decimal n, ?_, by simp,
      List.forall_mem_singleton.mpr rfl, ?_, ?_, ?_⟩
    · rw [hpoint]
      simp
    · intro c hc
      rcases List.mem_append.mp hc with hzero | hdigit
      · rw [List.eq_of_mem_replicate hzero]
        decide
      · exact hdigits c hdigit
    · rw [List.length_append, List.length_replicate]
      omega
    · have hzero : readDecimal ['0'] = 0 := by decide
      rw [readDecimal_append, hzero, readDecimal_replicate_append, readDecimal_decimal]
      omega

/-- Digits with a point among them are the number of the digits, shifted. -/
theorem readMagnitude_point {whole fraction : Text} (hne : whole ≠ []) (hne' : fraction ≠ [])
    (hwhole : ∀ c ∈ whole, c.isDigit) (hfraction : ∀ c ∈ fraction, c.isDigit) :
    readMagnitude (whole ++ '.' :: fraction) =
      some ((readDecimal (whole ++ fraction) : ℚ) / 10 ^ fraction.length) := by
  have hpoint : '.' ∉ whole := fun hmem ↦ absurd (hwhole '.' hmem) (by decide)
  have hunits : digitsValue whole = some (readDecimal whole) :=
    digitsValue_eq_some_iff.mpr ⟨hne, hwhole, rfl⟩
  have hparts : digitsValue fraction = some (readDecimal fraction) :=
    digitsValue_eq_some_iff.mpr ⟨hne', hfraction, rfl⟩
  unfold readMagnitude
  rw [splitOnce_append hpoint]
  simp only [hunits, hparts]
  refine congrArg some ?_
  rw [readDecimal_append]
  push_cast
  field_simp

theorem readMagnitude_digits {digits : Text} (hne : digits ≠ [])
    (hdigits : ∀ c ∈ digits, c.isDigit) :
    readMagnitude digits = some (readDecimal digits : ℚ) := by
  have hpoint : '.' ∉ digits := fun hmem ↦ absurd (hdigits '.' hmem) (by decide)
  unfold readMagnitude
  rw [splitOnce_eq_none_iff.mpr hpoint]
  simp only [digitsValue_eq_some_iff.mpr ⟨hne, hdigits, rfl⟩, Option.map_some]

/-- The sign in front of a text that begins with a digit. -/
theorem readNumber_signed (negative : Prop) [Decidable negative] {whole rest : Text} {value : ℚ}
    (hne : whole ≠ []) (hdigits : ∀ c ∈ whole, c.isDigit)
    (hvalue : readMagnitude (whole ++ rest) = some value) :
    readNumber ((if negative then ['-'] else []) ++ (whole ++ rest)) =
      some (if negative then -value else value) := by
  by_cases hnegative : negative
  · simp only [if_pos hnegative, List.singleton_append, readNumber, hvalue, Option.map_some]
  · simp only [if_neg hnegative, List.nil_append]
    obtain ⟨c, digits, rfl⟩ := List.exists_cons_of_ne_nil hne
    rw [readNumber]
    · exact hvalue
    · intro magnitude heq
      have hc := hdigits c List.mem_cons_self
      rw [List.cons_append, List.cons.injEq] at heq
      rw [heq.1] at hc
      exact absurd hc (by decide)

/-- A magnitude with the sign of the number in front is the number. -/
theorem signed_magnitude (raw : Int) (shift : ℚ) :
    (if raw < 0 then -((raw.natAbs : ℚ) * shift) else raw.natAbs * shift) = raw * shift := by
  rw [Nat.cast_natAbs]
  by_cases hsign : raw < 0
  · rw [if_pos hsign, abs_of_neg hsign, Int.cast_neg, neg_mul, neg_neg]
  · rw [if_neg hsign, abs_of_nonneg (not_lt.mp hsign)]

/-- A text in plain notation: a minus sign where the value is negative, digits, and with a positive
scale a point with that many digits behind it. -/
structure PlainText (raw scale : Int) (text : Text) : Prop where
  shape : ∃ whole fraction, text = (if raw < 0 then ['-'] else []) ++
      (whole ++ if 0 < scale then '.' :: fraction else []) ∧
    whole ≠ [] ∧ (∀ c ∈ whole, c.isDigit) ∧ (∀ c ∈ fraction, c.isDigit) ∧
    fraction.length = scale.toNat
  value : readNumber text = some ((raw : ℚ) * 10 ^ (-scale))

/-- A scale that is not positive appends zeros. -/
theorem plainText_of_nonpos (raw : Int) {scale : Int} (hlower : -127 ≤ scale) (hscale : scale ≤ 0) :
    PlainText raw scale (decimal128Text raw scale) := by
  obtain ⟨zeros, rfl⟩ : ∃ zeros : Nat, scale = -zeros := ⟨scale.natAbs, by omega⟩
  have hcast : ((-(-(zeros : Int))).bmod (2 ^ 8)).toNat = zeros := by
    rw [Int.bmod_eq_of_le (by omega) (by omega)]
    omega
  have htext : decimal128Text raw (-zeros) = (if raw < 0 then ['-'] else []) ++
      (decimal raw.natAbs ++ List.replicate zeros '0') := by
    rw [decimal128Text, if_pos hscale, hcast, signedDecimal]
    split_ifs <;> simp
  have hdigits : ∀ c ∈ decimal raw.natAbs ++ List.replicate zeros '0', c.isDigit := by
    intro c hc
    rcases List.mem_append.mp hc with hdigit | hzero
    · exact isDigit_of_mem_decimal hdigit
    · rw [List.eq_of_mem_replicate hzero]
      decide
  have hne : decimal raw.natAbs ++ List.replicate zeros '0' ≠ [] :=
    List.append_ne_nil_of_left_ne_nil (decimal_ne_nil _) _
  have hplain : ¬ 0 < -(zeros : Int) := by omega
  refine ⟨⟨_, [], ?_, hne, hdigits, by simp, by simp⟩, ?_⟩
  · rw [htext, if_neg hplain, List.append_nil]
  · have hmagnitude : readMagnitude (decimal raw.natAbs ++ List.replicate zeros '0' ++ []) =
        some ((raw.natAbs : ℚ) * 10 ^ zeros) := by
      rw [List.append_nil, readMagnitude_digits hne hdigits, readDecimal_append,
        readDecimal_decimal, ← List.append_nil (List.replicate zeros '0'),
        readDecimal_replicate_append]
      have hnil : readDecimal [] = 0 := rfl
      rw [hnil, List.append_nil, List.length_replicate]
      push_cast
      ring_nf
    have hread := readNumber_signed (raw < 0) hne hdigits hmagnitude
    rw [List.append_nil] at hread
    rw [htext, hread, neg_neg, zpow_natCast, signed_magnitude]

/-- A positive scale places the point. -/
theorem plainText_of_pos (raw : Int) {scale : Int} (hscale : 0 < scale) :
    PlainText raw scale (decimal128Text raw scale) := by
  obtain ⟨places, rfl⟩ : ∃ places : Nat, scale = places := ⟨scale.toNat, by omega⟩
  obtain ⟨whole, fraction, htext, hne, hwhole, hfraction, hlength, hvalue⟩ :=
    placePoint_decimal raw.natAbs places
  have hdecimal : decimal128Text raw places = (if raw < 0 then ['-'] else []) ++
      (whole ++ '.' :: fraction) := by
    rw [decimal128Text, if_neg (not_le.mpr hscale), Int.toNat_natCast, htext]
  have hfractionNe : fraction ≠ [] := List.ne_nil_of_length_pos (by omega)
  refine ⟨⟨whole, fraction, ?_, hne, hwhole, hfraction, by rw [hlength, Int.toNat_natCast]⟩, ?_⟩
  · rw [hdecimal, if_pos hscale]
  · have hread := readNumber_signed (raw < 0) hne hwhole
      (readMagnitude_point hne hfractionNe hwhole hfraction)
    rw [hdecimal, hread, hvalue, hlength, zpow_neg, zpow_natCast, div_eq_mul_inv, signed_magnitude]

/-- The buffer suffices, and the text denotes the raw value shifted by the scale in plain notation,
so that different raw values have different texts. -/
theorem decimal_exact (raw : Signed 128) (scale : Int) (hlower : -127 ≤ scale) :
    ∃ text, bufferedDecimal128 raw.value scale = some text ∧ PlainText raw.value scale text ∧
      ∀ other : Signed 128, bufferedDecimal128 other.value scale = some text → other = raw := by
  refine ⟨decimal128Text raw.value scale, bufferedDecimal128_eq raw scale, ?_, ?_⟩
  · rcases le_or_gt scale 0 with hscale | hscale
    · exact plainText_of_nonpos raw.value hlower hscale
    · exact plainText_of_pos raw.value hscale
  · intro other hother
    rw [bufferedDecimal128_eq, Option.some.injEq] at hother
    exact Signed.value_injective (decimal128Text_injective scale hother)

/-- The smallest raw value, with all its digits behind the point. -/
theorem decimal_exact_smallest :
    ∃ text, bufferedDecimal128 (-2 ^ 127) 38 = some text ∧ PlainText (-2 ^ 127) 38 text ∧
      ∀ other : Signed 128, bufferedDecimal128 other.value 38 = some text →
        other = ⟨-2 ^ 127, by decide, by decide⟩ :=
  decimal_exact ⟨-2 ^ 127, by decide, by decide⟩ 38 (by decide)

end RelytIngest
