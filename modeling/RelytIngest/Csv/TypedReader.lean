import RelytIngest.Csv.DateText
import RelytIngest.Csv.DecimalExact

/-!
# Reading values back

`readValue` reads a field at the type of its column, as the loader does when it fills the table: a
number within the bounds of its width, a real date, a time within the day, a decimal that is a
multiple of the smallest step of its scale, bytes in pairs of hexadecimal digits.

`readCell_cellField_iff` says exactly which cells of a supported type are read back as they were:
all but a text with a NUL character, a timestamp in milliseconds whose microseconds exceed 64 bits,
and a decimal other than zero whose scale has no negation of 8 bits (`Exact`).
-/

set_option autoImplicit false
set_option relaxedAutoImplicit false

namespace RelytIngest

open Foundations

/-! ### One type at a time -/

/-- A number that fits the width. -/
def signedOfInt (bits : Nat) (value : Int) : Option (Signed bits) :=
  if h : -2 ^ (bits - 1) ≤ value ∧ value < 2 ^ (bits - 1) then some ⟨value, h.1, h.2⟩ else none

@[simp] theorem signedOfInt_value {bits : Nat} (number : Signed bits) :
    signedOfInt bits number.value = some number :=
  dif_pos ⟨number.lower, number.upper⟩

theorem signedOfInt_eq_some_iff {bits : Nat} {value : Int} {number : Signed bits} :
    signedOfInt bits value = some number ↔ value = number.value := by
  constructor
  · intro h
    unfold signedOfInt at h
    split_ifs at h
    exact congrArg Signed.value (Option.some.inj h)
  · rintro rfl
    exact signedOfInt_value number

def readSigned (bits : Nat) (text : Text) : Option (Signed bits) :=
  (parseSigned (2 ^ (bits - 1)) text).bind (signedOfInt bits)

theorem readSigned_signedDecimal {bits : Nat} (number : Signed bits) :
    readSigned bits (signedDecimal number.value) = some number := by
  have hlower := number.lower
  have hupper := number.upper
  have hparse : parseSigned (2 ^ (bits - 1)) (signedDecimal number.value) = some number.value := by
    have hcast : ((2 ^ (bits - 1) : Nat) : Int) = 2 ^ (bits - 1) := by push_cast; rfl
    unfold signedDecimal
    by_cases hsign : number.value < 0
    · have hdigits : digitsValue (decimal number.value.natAbs) = some number.value.natAbs :=
        digitsValue_eq_some_iff.mpr
          ⟨decimal_ne_nil _, fun _ ↦ isDigit_of_mem_decimal, readDecimal_decimal _⟩
      have hle : number.value.natAbs ≤ 2 ^ (bits - 1) := by omega
      have hback : -(number.value.natAbs : Int) = number.value := by omega
      rw [if_pos hsign, parseSigned, hdigits, Option.filter_some, if_pos (decide_eq_true hle),
        Option.map_some, hback]
    · have hle : number.value.natAbs ≤ 2 ^ (bits - 1) - 1 := by omega
      have hback : (number.value.natAbs : Int) = number.value := by omega
      rw [if_neg hsign, parseSigned_of_digits (not_mem_decimal (by decide)), ← paddedDecimal_one,
        parseUnsigned_paddedDecimal hle, Option.map_some, hback]
  rw [readSigned, hparse, Option.bind_some, signedOfInt_value]

def readDigit (c : Char) : Option (Fin 10) :=
  if c.isDigit then some (Fin.ofNat 10 (c.toNat - 48)) else none

/-- The text of a float. -/
def readFloat (text : Text) : Option FloatDisplay :=
  if text = "NaN".toList then some .nan
  else
    let negative := decide (text.head? = some '-')
    let magnitude := if negative then text.tail else text
    if magnitude = "inf".toList then some (.infinite negative)
    else
      match splitOnce '.' magnitude with
      | none => (digitsValue magnitude).map fun whole ↦ .finite negative whole []
      | some (whole, fraction) => do
        let units ← digitsValue whole
        let digits ← fraction.mapM readDigit
        return .finite negative units digits

/-- The digits of a fraction are read one by one. -/
theorem mapM_readDigit (digits : List (Fin 10)) :
    (digits.map fun digit : Fin 10 ↦ Nat.digitChar digit.val).mapM readDigit = some digits := by
  have hdigit : ∀ digit : Fin 10, readDigit (Nat.digitChar digit.val) = some digit := by decide
  induction digits with
  | nil => rfl
  | cons digit rest ih =>
    rw [List.map_cons, List.mapM_cons, hdigit, ih]
    rfl

/-- The digits that a float is displayed with. -/
theorem floatDigits_eq (digits : List (Fin 10)) :
    (digits.map fun digit ↦ Nat.digitChar digit) =
      digits.map fun digit : Fin 10 ↦ Nat.digitChar digit.val := by
  induction digits with
  | nil => rfl
  | cons digit rest ih => exact congrArg (Nat.digitChar digit.val :: ·) ih

/-- A sign in front of what does not begin with one is told apart. -/
theorem split_sign (negative : Bool) {magnitude : Text} (hhead : magnitude.head? ≠ some '-') :
    decide (((if negative then ['-'] else []) ++ magnitude).head? = some '-') = negative ∧
      (if negative then ((if negative then ['-'] else []) ++ magnitude).tail
        else (if negative then ['-'] else []) ++ magnitude) = magnitude := by
  cases negative <;> simp [hhead]

theorem readFloat_text (value : FloatDisplay) : readFloat value.text = some value := by
  cases value with
  | nan => rfl
  | infinite negative => cases negative <;> rfl
  | finite negative whole fraction =>
    have hpoint : '.' ∉ decimal whole := not_mem_decimal (by decide)
    have hwhole : digitsValue (decimal whole) = some whole :=
      digitsValue_eq_some_iff.mpr
        ⟨decimal_ne_nil _, fun _ ↦ isDigit_of_mem_decimal, readDecimal_decimal _⟩
    obtain ⟨c, digits, hdigits⟩ := List.exists_cons_of_ne_nil (decimal_ne_nil whole)
    have hc : c.isDigit := isDigit_of_mem_decimal (hdigits ▸ List.mem_cons_self : c ∈ decimal whole)
    have hne (other : Char) (hother : other.isDigit = false) : c ≠ other := by
      rintro rfl
      rw [hc] at hother
      exact Bool.noConfusion hother
    generalize htail : (if fraction = [] then [] else
      '.' :: fraction.map fun digit ↦ Nat.digitChar digit : Text) = tail
    have hmagnitude : (decimal whole ++ tail).head? ≠ some '-' := by
      rw [hdigits]
      simpa using hne '-' (by decide)
    have hinf : decimal whole ++ tail ≠ "inf".toList := by
      rw [hdigits]
      simpa using fun h ↦ absurd h (hne 'i' (by decide))
    have hnan : (if negative then ['-'] else []) ++ (decimal whole ++ tail) ≠ "NaN".toList := by
      rw [hdigits]
      cases negative <;> simp [hne 'N' (by decide)]
    obtain ⟨hsign, hrest⟩ := split_sign negative hmagnitude
    have htext : (FloatDisplay.finite negative whole fraction).text =
        (if negative then ['-'] else []) ++ (decimal whole ++ tail) := by
      rw [FloatDisplay.text, List.append_assoc, htail]
    rw [htext, readFloat, if_neg hnan]
    simp only [hsign, hrest, if_neg hinf]
    by_cases hfraction : fraction = []
    · rw [if_pos hfraction] at htail
      rw [← htail, List.append_nil, splitOnce_eq_none_iff.mpr hpoint, hwhole, hfraction]
      rfl
    · rw [if_neg hfraction] at htail
      rw [← htail, splitOnce_append hpoint, floatDigits_eq]
      simp only [hwhole, mapM_readDigit, Option.bind_eq_bind, Option.bind_some]
      rfl

/-- The raw value of a decimal: its number in units of the last place. -/
def readRaw (scale : Int) (text : Text) : Option Int := do
  let number ← readNumber text
  let raw := number * 10 ^ scale
  if raw.den = 1 then some raw.num else none

theorem readRaw_eq_some_iff {scale raw : Int} {text : Text} :
    readRaw scale text = some raw ↔
      ∃ number, readNumber text = some number ∧ number * 10 ^ scale = raw := by
  simp only [readRaw, Option.bind_eq_bind, Option.bind_eq_some_iff]
  refine exists_congr fun number ↦ and_congr_right fun _ ↦ ?_
  constructor
  · intro h
    rw [Option.ite_none_right_eq_some] at h
    rw [← Option.some.inj h.2]
    exact (Rat.coe_int_num_of_den_eq_one h.1).symm
  · intro h
    rw [h, Rat.den_intCast, Rat.num_intCast, if_pos rfl]

/-- A decimal is read back, except one that is not zero where the scale has no negation. -/
theorem readRaw_decimal128Text_iff (raw : Int) (scale : Signed 8) :
    readRaw scale.value (decimal128Text raw scale.value) = some raw ↔
      raw = 0 ∨ -127 ≤ scale.value := by
  rw [readRaw_eq_some_iff]
  by_cases hscale : -127 ≤ scale.value
  · refine iff_of_true ⟨(raw : ℚ) * 10 ^ (-scale.value), ?_, ?_⟩ (Or.inr hscale)
    · rcases le_or_gt scale.value 0 with hsign | hsign
      · exact (plainText_of_nonpos raw hscale hsign).value
      · exact (plainText_of_pos raw hsign).value
    · rw [mul_assoc, ← zpow_add₀ (by norm_num), neg_add_cancel, zpow_zero, mul_one]
  · -- the negation of the least scale is that scale again, and no zero is appended
    have hleast : scale.value = -128 := by
      have hlower := scale.lower
      norm_num at hlower
      omega
    have htext : decimal128Text raw (-128) = decimal128Text raw 0 := rfl
    have hnumber := (plainText_of_nonpos raw (by decide) (le_refl (0 : Int))).value
    rw [neg_zero, zpow_zero, mul_one] at hnumber
    have hle : ¬ (-127 : Int) ≤ -128 := by decide
    rw [hleast, htext, hnumber]
    simp only [Option.some.injEq, exists_eq_left', hle, or_false]
    have hpower : ((10 : ℚ) ^ (-128 : ℤ)) ≠ 1 := by norm_num
    constructor
    · intro h
      by_contra hraw
      exact hpower (mul_left_cancel₀ (Int.cast_ne_zero.mpr hraw) (h.trans (mul_one _).symm))
    · rintro rfl
      simp

def hexValue (c : Char) : Option Nat :=
  if c.isDigit then some (c.toNat - 48)
  else if 'a' ≤ c ∧ c ≤ 'f' then some (c.toNat - 87)
  else none

/-- Bytes as pairs of hexadecimal digits. -/
def readHexPairs : Text → Option (List UInt8)
  | [] => some []
  | [_] => none
  | high :: low :: rest => do
    let upper ← hexValue high
    let lower ← hexValue low
    let bytes ← readHexPairs rest
    return UInt8.ofNat (16 * upper + lower) :: bytes

/-- The hexadecimal form of bytes. -/
def readHex : Text → Option (List UInt8)
  | '\\' :: 'x' :: pairs => readHexPairs pairs
  | _ => none

theorem hexValue_hexDigit {nibble : UInt8} (hnibble : nibble.toNat < 16) :
    hexValue (hexDigit nibble) = some nibble.toNat := by
  have hdigits : ∀ i : Fin 16, hexValue (Nat.digitChar i) = some i.val := by decide
  exact hdigits ⟨_, hnibble⟩

theorem readHex_hexText (bytes : List UInt8) : readHex (hexText bytes) = some bytes := by
  have hpairs : readHexPairs (bytes.flatMap hexByte) = some bytes := by
    induction bytes with
    | nil => rfl
    | cons byte rest ih =>
      have hhigh : (byte >>> 4).toNat = byte.toNat / 16 := by simp [Nat.shiftRight_eq_div_pow]
      have hlow : (byte &&& 0x0f).toNat = byte.toNat % 16 := by
        simpa using Nat.and_two_pow_sub_one_eq_mod byte.toNat 4
      have hlt : byte.toNat < 256 := byte.toNat_lt
      have hbyte : 16 * (byte.toNat / 16) + byte.toNat % 16 = byte.toNat := by omega
      rw [List.flatMap_cons, hexByte, List.cons_append, List.cons_append, List.nil_append,
        readHexPairs, hexValue_hexDigit (by omega), hexValue_hexDigit (by omega), ih, hhigh, hlow]
      simp only [Option.bind_eq_bind, Option.bind_some, hbyte, UInt8.ofNat_toNat]
      rfl
  exact hpairs

/-- The day number of a date. -/
def readDate32 (text : Text) : Option (Signed 32) :=
  (readDate text).bind fun date ↦ signedOfInt 32 date.dayNumber

theorem readDate32_date32Text (days : Signed 32) :
    readDate32 (date32Text days.value) = some days := by
  rw [readDate32, readDate_date32Text, Option.bind_some, dayNumber_civilFromDays,
    signedOfInt_value]

/-- A timestamp in microseconds, with or without an offset. -/
def readMicros (withOffset : Bool) (text : Text) : Option (Signed 64) :=
  (readTimestamp text).bind fun read ↦
    if read.2 = withOffset then signedOfInt 64 read.1 else none

theorem readMicros_timestampText (micros : Signed 64) (withOffset : Bool) :
    readMicros withOffset (timestampText micros.value withOffset) = some micros := by
  rw [readMicros, readTimestamp_timestampText, Option.bind_some, if_pos rfl, signedOfInt_value]

/-- A timestamp in whole milliseconds. -/
def readMillis (withOffset : Bool) (text : Text) : Option (Signed 64) :=
  (readTimestamp text).bind fun read ↦
    if read.2 = withOffset ∧ read.1 % 1000 = 0 then signedOfInt 64 (read.1 / 1000) else none

/-- Milliseconds are read back when their microseconds did not wrap. -/
theorem readMillis_iff (millis : Signed 64) (withOffset : Bool) :
    readMillis withOffset (timestampText (microsOfMillis millis.value) withOffset) = some millis ↔
      i64Min ≤ millis.value * 1000 ∧ millis.value * 1000 ≤ i64Max := by
  have hread := readTimestamp_timestampText (shownMillis millis) withOffset
  have hshown : (shownMillis millis).value = microsOfMillis millis.value := rfl
  rw [hshown] at hread
  rw [readMillis, hread, Option.bind_some]
  simp only [true_and]
  constructor
  · intro h
    rw [Option.ite_none_right_eq_some, signedOfInt_eq_some_iff] at h
    have hmicros : microsOfMillis millis.value = millis.value * 1000 := by omega
    exact hmicros ▸ wrapI64_mem _
  · rintro ⟨hmin, hmax⟩
    rw [microsOfMillis, wrapI64_of_mem hmin hmax, Int.mul_emod_left, if_pos rfl,
      Int.mul_ediv_cancel _ (by decide), signedOfInt_value]

def readDecimal128 (scale : Int) (text : Text) : Option (Signed 128) :=
  (readRaw scale text).bind (signedOfInt 128)

theorem readDecimal128_iff (raw : Signed 128) (scale : Signed 8) :
    readDecimal128 scale.value (decimal128Text raw.value scale.value) = some raw ↔
      raw.value = 0 ∨ -127 ≤ scale.value := by
  rw [← readRaw_decimal128Text_iff, readDecimal128, Option.bind_eq_some_iff]
  constructor
  · rintro ⟨value, hvalue, hraw⟩
    rwa [signedOfInt_eq_some_iff.mp hraw] at hvalue
  · exact fun hraw ↦ ⟨_, hraw, signedOfInt_value raw⟩

/-! ### A cell -/

/-- The value of a field at the type of its column. -/
def readValue : (dataType : DataType) → Text → Option dataType.Value
  | .boolean, text =>
    if text = ['t'] then some (show Bool from true)
    else if text = ['f'] then some (show Bool from false)
    else none
  | .int8, text => readSigned 8 text
  | .int16, text => readSigned 16 text
  | .int32, text => readSigned 32 text
  | .int64, text => readSigned 64 text
  | .float32, text | .float64, text => readFloat text
  | .utf8, text | .largeUtf8, text => some (show Text from text)
  | .date32, text => readDate32 text
  | .timestamp .microsecond timezone, text => readMicros timezone.isSome text
  | .timestamp .millisecond timezone, text => readMillis timezone.isSome text
  | .timestamp .second _, _ | .timestamp .nanosecond _, _ => none
  | .decimal128 _ scale, text => readDecimal128 scale.value text
  | .binary, text | .largeBinary, text => readHex text
  | .other _, _ => none

/-- A field read at the type of its column; a bare empty field is NULL. -/
def readCell (dataType : DataType) : Option Text → Option (Option dataType.Value)
  | none => some none
  | some text => (readValue dataType text).map some

/-- Nothing of the value is lost in its field. -/
def Exact : Cell → Prop
  | ⟨.utf8, some (value : Text)⟩ | ⟨.largeUtf8, some (value : Text)⟩ => '\x00' ∉ value
  | ⟨.timestamp .millisecond _, some (value : Signed 64)⟩ =>
    i64Min ≤ value.value * 1000 ∧ value.value * 1000 ≤ i64Max
  | ⟨.decimal128 _ scale, some (value : Signed 128)⟩ => value.value = 0 ∨ -127 ≤ scale.value
  | _ => True

@[simp] theorem exact_none (dataType : DataType) : Exact ⟨dataType, none⟩ := by
  cases dataType with
  | timestamp unit timezone => cases unit <;> trivial
  | _ => trivial

/-- A value whose field has a text is read back as the text is. -/
theorem readCell_formatted {dataType : DataType} {value : dataType.Value} {text : Text}
    (hformat : formattedText dataType value = some text) :
    readCell dataType (cellField ⟨dataType, some value⟩) = some (some value) ↔
      readValue dataType text = some value := by
  rw [(writeCell_formatted hformat).2, readCell, Option.map_eq_some_iff]
  simp

/-- A text is read back when it has no NUL character. -/
theorem stripNul_eq_self_iff (value : Text) : stripNul value = value ↔ '\x00' ∉ value := by
  rw [stripNul, List.filter_eq_self]
  constructor
  · intro h hmem
    simpa using h _ hmem
  · intro h c hc
    rw [bne_iff_ne]
    rintro rfl
    exact h hc

/-- Exactly which cells of a supported type are read back as they were. -/
theorem readCell_cellField_iff {cell : Cell} (hsupported : isSupportedType cell.1) :
    readCell cell.1 (cellField cell) = some cell.2 ↔ Exact cell := by
  obtain ⟨dataType, value⟩ := cell
  cases value with
  | none =>
    have hnull : cellField ⟨dataType, none⟩ = none := by cases dataType <;> rfl
    exact iff_of_true (by rw [hnull]; rfl) (exact_none dataType)
  | some value =>
    cases dataType with
    | boolean =>
      refine (readCell_formatted rfl).trans (iff_of_true ?_ trivial)
      cases (show Bool from value) <;> rfl
    | int8 | int16 | int32 | int64 =>
      exact (readCell_formatted rfl).trans (iff_of_true (readSigned_signedDecimal _) trivial)
    | float32 | float64 =>
      exact (readCell_formatted rfl).trans (iff_of_true (readFloat_text _) trivial)
    | utf8 | largeUtf8 =>
      refine Iff.trans ?_ (stripNul_eq_self_iff value)
      exact ⟨fun h ↦ Option.some.inj (Option.some.inj h), fun h ↦ congrArg (some ∘ some) h⟩
    | date32 =>
      exact (readCell_formatted rfl).trans
        (iff_of_true (readDate32_date32Text (show Signed 32 from value)) trivial)
    | timestamp unit timezone =>
      cases unit with
      | second | nanosecond => exact Bool.noConfusion hsupported
      | millisecond =>
        exact (readCell_formatted rfl).trans
          (readMillis_iff (show Signed 64 from value) timezone.isSome)
      | microsecond =>
        exact (readCell_formatted rfl).trans
          (iff_of_true (readMicros_timestampText (show Signed 64 from value) _) trivial)
    | decimal128 precision scale =>
      exact (readCell_formatted rfl).trans (readDecimal128_iff (show Signed 128 from value) scale)
    | binary | largeBinary =>
      refine (readCell_formatted rfl).trans (iff_of_true ?_ trivial)
      exact readHex_hexText (show List UInt8 from value)
    | other debug => exact Bool.noConfusion hsupported

/-! ### Records -/

/-- A record read at the types of the columns, one field for each. -/
def readRow : List DataType → List (Option Text) → Option (List Cell)
  | [], [] => some []
  | dataType :: types, field :: fields => do
    let value ← readCell dataType field
    let rest ← readRow types fields
    return ⟨dataType, value⟩ :: rest
  | _, _ => none

/-- The rows of a body, whose first record is the header. -/
def readRows (delimiter : Char) (types : List DataType) (body : Text) : Option (List (List Cell)) :=
  match readCsv delimiter body with
  | some (_ :: records) => records.mapM (readRow types)
  | _ => none

theorem readRow_map_iff {row : List Cell} (hsupported : ∀ cell ∈ row, isSupportedType cell.1) :
    readRow (row.map Sigma.fst) (row.map cellField) = some row ↔ ∀ cell ∈ row, Exact cell := by
  induction row with
  | nil => simp [readRow]
  | cons cell rest ih =>
    obtain ⟨dataType, shown⟩ := cell
    rw [List.forall_mem_cons] at hsupported
    rw [List.forall_mem_cons, ← ih hsupported.2, ← readCell_cellField_iff hsupported.1]
    simp only [List.map_cons, readRow, Option.bind_eq_bind, Option.bind_eq_some_iff]
    constructor
    · rintro ⟨value, hvalue, tail, htail, hrow⟩
      obtain ⟨hcell, rfl⟩ := List.cons.inj (Option.some.inj hrow)
      obtain rfl : value = shown := eq_of_heq (Sigma.mk.inj hcell).2
      exact ⟨hvalue, htail⟩
    · rintro ⟨hvalue, htail⟩
      exact ⟨shown, hvalue, rest, htail, rfl⟩

/-- Reading what was written item by item gives the items exactly when it does for each. -/
theorem mapM_map_eq_some_iff {α γ : Type*} (write : α → γ) (read : γ → Option α)
    (items : List α) :
    (items.map write).mapM read = some items ↔ ∀ item ∈ items, read (write item) = some item := by
  induction items with
  | nil => simp
  | cons item rest ih =>
    rw [List.forall_mem_cons, ← ih, List.map_cons, List.mapM_cons]
    simp only [Option.bind_eq_bind, Option.bind_eq_some_iff]
    constructor
    · rintro ⟨first, hfirst, tail, htail, heq⟩
      obtain ⟨rfl, rfl⟩ := List.cons.inj (Option.some.inj heq)
      exact ⟨hfirst, htail⟩
    · rintro ⟨hfirst, htail⟩
      exact ⟨item, hfirst, rest, htail, rfl⟩

end RelytIngest
