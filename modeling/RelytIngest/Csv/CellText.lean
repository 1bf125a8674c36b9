import RelytIngest.Csv.CivilDate
import RelytIngest.Csv.RoundTrip

/-!
# What the field of a cell shows

Two cells of one key type have the same field exactly when they show the same value
(`cellField_eq_iff`): equal values, except that NUL characters of a text do not show, and that a
timestamp in milliseconds shows only its 64-bit product by 1000 (`shownCell`). So each formatter is
injective on the values of its type, which is proved one formatter at a time.
-/

set_option autoImplicit false
set_option relaxedAutoImplicit false

namespace RelytIngest

open Foundations

/-! ### One formatter at a time -/

theorem date32Text_injective : Function.Injective date32Text := by
  intro first second heq
  simp only [date32Text, List.append_assoc, List.cons_append] at heq
  obtain ⟨hyear, hrest⟩ := paddedSigned_append_inj (by decide) heq
  obtain ⟨hmonth, hday⟩ := append_cons_inj (not_mem_paddedDecimal (by decide))
    (not_mem_paddedDecimal (by decide)) hrest
  have hdate : civilFromDays first = civilFromDays second := by
    cases hfirst : civilFromDays first with
    | mk year month day =>
      cases hsecond : civilFromDays second with
      | mk year' month' day' =>
        rw [hfirst, hsecond] at hyear hmonth hday
        rw [CivilDate.mk.injEq]
        exact ⟨hyear, paddedDecimal_injective _ hmonth, paddedDecimal_injective _ hday⟩
  exact civilFromDays_injective hdate

/-- Trimming keeps the fraction: the digits dropped are zeros, and what is left fits the width. -/
theorem trimFraction_spec (width frac : Nat) (hfrac : frac < 10 ^ width) :
    (trimFraction width frac).2 ≤ width ∧
      (trimFraction width frac).1 < 10 ^ (trimFraction width frac).2 ∧
      frac = (trimFraction width frac).1 * 10 ^ (width - (trimFraction width frac).2) := by
  induction width generalizing frac with
  | zero => simpa [trimFraction] using hfrac
  | succ width ih =>
    rw [trimFraction]
    split_ifs with hzero
    · obtain ⟨hwidth, hlt, hvalue⟩ := ih (frac / 10) (by rw [Nat.pow_succ] at hfrac; omega)
      refine ⟨Nat.le_succ_of_le hwidth, hlt, ?_⟩
      rw [Nat.succ_sub hwidth, Nat.pow_succ, ← Nat.mul_assoc, ← hvalue]
      omega
    · exact ⟨le_rfl, hfrac, by simp⟩

/-- A fraction of a second is read off its text. -/
theorem fractionText_injOn {first second : Nat} (hfirst : first < 10 ^ 6)
    (hsecond : second < 10 ^ 6) (heq : fractionText first = fractionText second) :
    first = second := by
  unfold fractionText at heq
  split_ifs at heq with hzero hzero' hzero'
  · rw [hzero, hzero']
  · obtain ⟨-, hlt, hvalue⟩ := trimFraction_spec 6 first hfirst
    obtain ⟨-, hlt', hvalue'⟩ := trimFraction_spec 6 second hsecond
    have hpos : 0 < (trimFraction 6 first).2 := by
      by_contra hnot
      rw [Nat.eq_zero_of_not_pos hnot, Nat.pow_zero, Nat.lt_one_iff] at hlt
      rw [hlt, Nat.zero_mul] at hvalue
      exact hzero hvalue
    have hpos' : 0 < (trimFraction 6 second).2 := by
      by_contra hnot
      rw [Nat.eq_zero_of_not_pos hnot, Nat.pow_zero, Nat.lt_one_iff] at hlt'
      rw [hlt', Nat.zero_mul] at hvalue'
      exact hzero' hvalue'
    have htext := List.tail_eq_of_cons_eq heq
    have hwidth := congrArg List.length htext
    rw [length_paddedDecimal hpos hlt, length_paddedDecimal hpos' hlt'] at hwidth
    have hnumber := congrArg readDecimal htext
    rw [readDecimal_paddedDecimal, readDecimal_paddedDecimal] at hnumber
    rw [hvalue, hvalue', hwidth, hnumber]

/-- The parts of a timestamp text are told apart: the day, the time of the day and the fraction. -/
theorem timestampText_injOn {first second : Int} (withOffset : Bool)
    (hfirst : i64Min ≤ first ∧ first ≤ i64Max) (hsecond : i64Min ≤ second ∧ second ≤ i64Max)
    (heq : timestampText first withOffset = timestampText second withOffset) : first = second := by
  simp only [timestampText, List.append_assoc, List.cons_append] at heq
  obtain ⟨hdate, heq⟩ := append_cons_inj (not_mem_date32Text (by decide) (by decide) _)
    (not_mem_date32Text (by decide) (by decide) _) heq
  obtain ⟨hhour, heq⟩ := append_cons_inj (not_mem_paddedDecimal (by decide))
    (not_mem_paddedDecimal (by decide)) heq
  obtain ⟨hminute, heq⟩ := append_cons_inj (not_mem_paddedDecimal (by decide))
    (not_mem_paddedDecimal (by decide)) heq
  have hhead (frac : Nat) : ∀ c ∈ (fractionText frac ++
      (if withOffset then "+00".toList else [])).head?, c.isDigit = false := by
    intro c hc
    unfold fractionText at hc
    split_ifs at hc <;> simp at hc <;> subst hc <;> rfl
  obtain ⟨hsecs, heq⟩ := digits_append_inj (fun _ ↦ isDigit_of_mem_paddedDecimal)
    (fun _ ↦ isDigit_of_mem_paddedDecimal) (hhead _) (hhead _) heq
  have hfrac := fractionText_injOn (by omega) (by omega) (List.append_cancel_right heq)
  have hdays := date32Text_injective hdate
  have hhour' := paddedDecimal_injective _ hhour
  have hminute' := paddedDecimal_injective _ hminute
  have hsecs' := paddedDecimal_injective _ hsecs
  simp only [i64Min, i64Max] at hfirst hsecond
  rw [Int.bmod_eq_emod, Int.bmod_eq_emod] at hdays
  norm_num at hdays
  have hday : first / 86400000000 = second / 86400000000 := by
    split_ifs at hdays <;> omega
  have hinDay : (first % 86400000000).toNat = (second % 86400000000).toNat := by omega
  omega

/-- The digits of a placed point read back as the number. -/
theorem readDecimal_placePoint (n places : Nat) :
    readDecimal ((placePoint (decimal n) places).filter fun c ↦ c != '.') = n := by
  have hplain : ∀ front : Text, (∀ c ∈ front, c.isDigit) →
      front.filter (fun c ↦ c != '.') = front := by
    intro front hfront
    refine List.filter_eq_self.mpr fun c hc ↦ ?_
    have hdigit := hfront c hc
    simp only [bne_iff_ne]
    rintro rfl
    exact absurd hdigit (by decide)
  have hdigits : ∀ c ∈ decimal n, c.isDigit := fun _ ↦ isDigit_of_mem_decimal
  unfold placePoint
  split_ifs
  · rw [List.filter_append, List.filter_cons_of_neg (by decide),
      hplain _ fun c hc ↦ hdigits c (List.mem_of_mem_take hc),
      hplain _ fun c hc ↦ hdigits c (List.mem_of_mem_drop hc), List.take_append_drop,
      readDecimal_decimal]
  · have hzeros : ∀ c ∈ List.replicate (places - (decimal n).length) '0', c.isDigit := by
      intro c hc
      rw [List.eq_of_mem_replicate hc]
      decide
    rw [List.filter_append, List.filter_append, hplain _ hzeros, hplain _ hdigits,
      List.append_assoc, readDecimal_append, readDecimal_replicate_append, readDecimal_decimal]
    have hlead : readDecimal (List.filter (fun c ↦ c != '.') "0.".toList) = 0 := by decide
    rw [hlead, Nat.mul_zero, Nat.zero_add]

/-- A placed point starts with a digit. -/
theorem placePoint_ne_minus (n places : Nat) (rest : Text) :
    placePoint (decimal n) places ≠ '-' :: rest := by
  intro heq
  have hmem : '-' ∈ placePoint (decimal n) places := heq ▸ List.mem_cons_self
  have hminus : '-' ∉ decimal n := not_mem_decimal (by decide)
  have htake := fun count ↦ mt (List.mem_of_mem_take (i := count)) hminus
  have hdrop := fun count ↦ mt (List.mem_of_mem_drop (i := count)) hminus
  unfold placePoint at hmem
  split_ifs at hmem <;> simp [hminus, htake, hdrop] at hmem

theorem decimal128Text_injective (scale : Int) :
    Function.Injective fun raw ↦ decimal128Text raw scale := by
  intro first second heq
  simp only [decimal128Text] at heq
  split_ifs at heq with hscale hfirst hsecond hsecond
  · exact signedDecimal_injective (List.append_cancel_right heq)
  · have := congrArg (fun text ↦ readDecimal (text.filter fun c ↦ c != '.'))
      (List.append_cancel_left heq)
    simp only [readDecimal_placePoint] at this
    omega
  · exact absurd heq.symm (placePoint_ne_minus _ _ _)
  · exact absurd heq (placePoint_ne_minus _ _ _)
  · have := congrArg (fun text ↦ readDecimal (text.filter fun c ↦ c != '.'))
      (List.append_cancel_left heq)
    simp only [readDecimal_placePoint] at this
    omega

theorem hexDigit_injOn {first second : UInt8} (hfirst : first.toNat < 16)
    (hsecond : second.toNat < 16) (heq : hexDigit first = hexDigit second) : first = second := by
  have hdigits : ∀ i j : Fin 16, Nat.digitChar i = Nat.digitChar j → i = j := by decide
  have := hdigits ⟨_, hfirst⟩ ⟨_, hsecond⟩ heq
  rw [Fin.mk.injEq] at this
  exact UInt8.toNat_inj.mp this

theorem hexByte_injective : Function.Injective hexByte := by
  intro first second heq
  have hhigh (byte : UInt8) : (byte >>> 4).toNat = byte.toNat / 16 := by
    simp [Nat.shiftRight_eq_div_pow]
  have hlow (byte : UInt8) : (byte &&& 0x0f).toNat = byte.toNat % 16 := by
    simpa using Nat.and_two_pow_sub_one_eq_mod byte.toNat 4
  have hlt (byte : UInt8) : byte.toNat < 256 := byte.toNat_lt
  simp only [hexByte, List.cons.injEq, and_true] at heq
  have hdiv := congrArg UInt8.toNat (hexDigit_injOn
    (by rw [hhigh]; have := hlt first; omega) (by rw [hhigh]; have := hlt second; omega) heq.1)
  have hmod := congrArg UInt8.toNat (hexDigit_injOn
    (by rw [hlow]; omega) (by rw [hlow]; omega) heq.2)
  rw [hhigh, hhigh] at hdiv
  rw [hlow, hlow] at hmod
  exact UInt8.toNat_inj.mp (by omega)

theorem hexText_injective : Function.Injective hexText := by
  intro first second heq
  have hbytes := List.append_cancel_left heq
  clear heq
  induction first generalizing second with
  | nil =>
    cases second with
    | nil => rfl
    | cons byte rest => simp [hexByte] at hbytes
  | cons byte rest ih =>
    cases second with
    | nil => simp [hexByte] at hbytes
    | cons byte' rest' =>
      rw [List.flatMap_cons, List.flatMap_cons] at hbytes
      obtain ⟨hhead, htail⟩ := List.append_inj hbytes rfl
      rw [hexByte_injective hhead, ih htail]

/-! ### What shows of a cell -/

/-- The 64-bit product that a timestamp in milliseconds is written from. -/
def shownMillis (millis : Signed 64) : Signed 64 where
  value := microsOfMillis millis.value
  lower := (wrapI64_mem _).1
  upper := Int.lt_add_one_of_le (wrapI64_mem _).2

/-- What the field of a cell shows: a text without its NUL characters, milliseconds as their 64-bit
product by 1000, any other value as it is. -/
def shownCell : Cell → Cell
  | ⟨.utf8, some (value : Text)⟩ => ⟨.utf8, some (show Text from stripNul value)⟩
  | ⟨.largeUtf8, some (value : Text)⟩ => ⟨.largeUtf8, some (show Text from stripNul value)⟩
  | ⟨.timestamp .millisecond timezone, some (value : Signed 64)⟩ =>
    ⟨.timestamp .millisecond timezone, some (show Signed 64 from shownMillis value)⟩
  | cell => cell

/-- The field and what shows agree for a type whose text agrees with what shows of a value. -/
theorem cellField_eq_iff_of (dataType : DataType) (text : dataType.Value → Text)
    (shown : dataType.Value → dataType.Value)
    (hfield : ∀ value, cellField ⟨dataType, value⟩ = value.map text)
    (hshown : ∀ value, shownCell ⟨dataType, value⟩ = ⟨dataType, value.map shown⟩)
    (htext : ∀ first second, text first = text second ↔ shown first = shown second)
    (first second : Option dataType.Value) :
    cellField ⟨dataType, first⟩ = cellField ⟨dataType, second⟩ ↔
      shownCell ⟨dataType, first⟩ = shownCell ⟨dataType, second⟩ := by
  rw [hfield, hfield, hshown, hshown, Sigma.mk.injEq]
  cases first <;> cases second <;> simp [htext]

/-- The case of a type whose values show as they are. -/
theorem cellField_eq_iff_of_injective (dataType : DataType) (text : dataType.Value → Text)
    (hfield : ∀ value, cellField ⟨dataType, value⟩ = value.map text)
    (hshown : ∀ value, shownCell ⟨dataType, value⟩ = ⟨dataType, value⟩)
    (htext : Function.Injective text) (first second : Option dataType.Value) :
    cellField ⟨dataType, first⟩ = cellField ⟨dataType, second⟩ ↔
      shownCell ⟨dataType, first⟩ = shownCell ⟨dataType, second⟩ :=
  cellField_eq_iff_of dataType text id hfield (fun value ↦ by rw [hshown, Option.map_id]; rfl)
    (fun _ _ ↦ htext.eq_iff) first second

theorem Signed.mem_i64 (number : Signed 64) : i64Min ≤ number.value ∧ number.value ≤ i64Max :=
  ⟨number.lower, Int.le_of_lt_add_one number.upper⟩

/-- The text of an integer column is injective, whatever its width. -/
theorem signedText_injective (bits : Nat) :
    Function.Injective fun number : Signed bits ↦ signedDecimal number.value :=
  signedDecimal_injective.comp Signed.value_injective

/-- Two cells of one key type have the same field exactly when they show the same. -/
theorem cellField_eq_iff {dataType : DataType} (hsupported : isSupportedPkType dataType)
    (first second : Option dataType.Value) :
    cellField ⟨dataType, first⟩ = cellField ⟨dataType, second⟩ ↔
      shownCell ⟨dataType, first⟩ = shownCell ⟨dataType, second⟩ := by
  cases dataType with
  | float32 | float64 | other => exact Bool.noConfusion hsupported
  | boolean =>
    have hbool : Function.Injective fun value : Bool ↦ (if value then ['t'] else ['f'] : Text) := by
      intro first second heq
      cases first <;> cases second <;> simp at heq ⊢
    exact cellField_eq_iff_of_injective .boolean _ (by rintro (_ | _) <;> rfl)
      (by rintro (_ | _) <;> rfl) hbool first second
  | int8 =>
    exact cellField_eq_iff_of_injective .int8 _ (by rintro (_ | _) <;> rfl)
      (by rintro (_ | _) <;> rfl) (signedText_injective 8) first second
  | int16 =>
    exact cellField_eq_iff_of_injective .int16 _ (by rintro (_ | _) <;> rfl)
      (by rintro (_ | _) <;> rfl) (signedText_injective 16) first second
  | int32 =>
    exact cellField_eq_iff_of_injective .int32 _ (by rintro (_ | _) <;> rfl)
      (by rintro (_ | _) <;> rfl) (signedText_injective 32) first second
  | int64 =>
    exact cellField_eq_iff_of_injective .int64 _ (by rintro (_ | _) <;> rfl)
      (by rintro (_ | _) <;> rfl) (signedText_injective 64) first second
  | date32 =>
    exact cellField_eq_iff_of_injective .date32 (fun value : Signed 32 ↦ date32Text value.value)
      (by rintro (_ | _) <;> rfl) (by rintro (_ | _) <;> rfl)
      (date32Text_injective.comp Signed.value_injective) first second
  | timestamp unit timezone =>
    cases unit with
    | second | nanosecond => exact Bool.noConfusion hsupported
    | microsecond =>
      refine cellField_eq_iff_of_injective (.timestamp .microsecond timezone)
        (fun value : Signed 64 ↦ timestampText value.value timezone.isSome)
        (by rintro (_ | _) <;> rfl) (by rintro (_ | _) <;> rfl) (fun a b heq ↦ ?_) first second
      exact Signed.value_injective (timestampText_injOn _ (Signed.mem_i64 a) (Signed.mem_i64 b) heq)
    | millisecond =>
      refine cellField_eq_iff_of (.timestamp .millisecond timezone)
        (fun value : Signed 64 ↦ timestampText (shownMillis value).value timezone.isSome)
        shownMillis (by rintro (_ | _) <;> rfl) (by rintro (_ | _) <;> rfl)
        (fun a b ↦ ⟨fun heq ↦ ?_, fun heq ↦ by rw [heq]⟩) first second
      exact Signed.value_injective (timestampText_injOn _ (Signed.mem_i64 _) (Signed.mem_i64 _) heq)
  | decimal128 precision scale =>
    exact cellField_eq_iff_of_injective (.decimal128 precision scale)
      (fun value : Signed 128 ↦ decimal128Text value.value scale.value)
      (by rintro (_ | _) <;> rfl) (by rintro (_ | _) <;> rfl)
      ((decimal128Text_injective scale.value).comp Signed.value_injective) first second
  | utf8 =>
    exact cellField_eq_iff_of .utf8 stripNul stripNul (by rintro (_ | _) <;> rfl)
      (by rintro (_ | _) <;> rfl) (fun _ _ ↦ Iff.rfl) first second
  | largeUtf8 =>
    exact cellField_eq_iff_of .largeUtf8 stripNul stripNul (by rintro (_ | _) <;> rfl)
      (by rintro (_ | _) <;> rfl) (fun _ _ ↦ Iff.rfl) first second
  | binary =>
    exact cellField_eq_iff_of_injective .binary hexText (by rintro (_ | _) <;> rfl)
      (by rintro (_ | _) <;> rfl) hexText_injective first second
  | largeBinary =>
    exact cellField_eq_iff_of_injective .largeBinary hexText (by rintro (_ | _) <;> rfl)
      (by rintro (_ | _) <;> rfl) hexText_injective first second

end RelytIngest
