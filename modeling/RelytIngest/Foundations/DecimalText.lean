import Mathlib.Algebra.Group.Nat.Defs
import Mathlib.Data.List.Basic
import Mathlib.Order.Basic

/-!
# Decimal texts

Numbers as the characters a formatter writes: plain (`decimal`), signed (`signedDecimal`), and
padded with zeros to a width (`paddedDecimal`, `paddedSigned`, where a minus sign counts towards the
width). `readDecimal` reads a run of digits back, so each writer is injective, and every character
written is a digit or the leading minus sign. `append_cons_inj` says that a text is cut in one way
at the first occurrence of a separator.
-/

set_option autoImplicit false
set_option relaxedAutoImplicit false

namespace RelytIngest.Foundations

/-- A string as its list of characters. -/
abbrev Text := List Char

/-- The decimal digits of a number. -/
def decimal (n : Nat) : Text := Nat.toDigits 10 n

/-- The decimal text of a signed number. -/
def signedDecimal (n : Int) : Text :=
  if n < 0 then '-' :: decimal n.natAbs else decimal n.natAbs

/-- The digits padded with zeros on the left to at least `width` characters. -/
def paddedDecimal (width n : Nat) : Text :=
  List.replicate (width - (decimal n).length) '0' ++ decimal n

/-- The signed text padded with zeros after the sign to at least `width` characters. -/
def paddedSigned (width : Nat) (n : Int) : Text :=
  if n < 0 then '-' :: paddedDecimal (width - 1) n.natAbs else paddedDecimal width n.natAbs

/-- The number a run of digits denotes. -/
def readDecimal (digits : Text) : Nat := Nat.ofDigitChars 10 digits 0

@[simp] theorem readDecimal_decimal (n : Nat) : readDecimal (decimal n) = n :=
  Nat.ofDigitChars_ten_toDigits

@[simp] theorem readDecimal_replicate_append (count : Nat) (digits : Text) :
    readDecimal (List.replicate count '0' ++ digits) = readDecimal digits := by
  simp [readDecimal, Nat.ofDigitChars_append]

@[simp] theorem readDecimal_paddedDecimal (width n : Nat) :
    readDecimal (paddedDecimal width n) = n := by
  simp [paddedDecimal]

theorem readDecimal_append (front back : Text) :
    readDecimal (front ++ back) = 10 ^ back.length * readDecimal front + readDecimal back := by
  rw [readDecimal, Nat.ofDigitChars_append, Nat.ofDigitChars_eq_ofDigitChars_zero]
  rfl

theorem isDigit_of_mem_decimal {n : Nat} {c : Char} (hc : c ∈ decimal n) : c.isDigit :=
  Nat.isDigit_of_mem_toDigits (by decide) (by decide) hc

theorem isDigit_of_mem_paddedDecimal {width n : Nat} {c : Char} (hc : c ∈ paddedDecimal width n) :
    c.isDigit := by
  rcases List.mem_append.mp hc with hzero | hdigit
  · rw [List.eq_of_mem_replicate hzero]
    decide
  · exact isDigit_of_mem_decimal hdigit

theorem not_mem_decimal {n : Nat} {c : Char} (hc : c.isDigit = false) : c ∉ decimal n := by
  intro hmem
  rw [isDigit_of_mem_decimal hmem] at hc
  exact Bool.noConfusion hc

theorem not_mem_paddedDecimal {width n : Nat} {c : Char} (hc : c.isDigit = false) :
    c ∉ paddedDecimal width n := by
  intro hmem
  rw [isDigit_of_mem_paddedDecimal hmem] at hc
  exact Bool.noConfusion hc

/-- A character that is neither a digit nor the minus sign is in no signed text. -/
theorem not_mem_signedDecimal {n : Int} {c : Char} (hc : c.isDigit = false) (hminus : c ≠ '-') :
    c ∉ signedDecimal n := by
  unfold signedDecimal
  split_ifs <;> simp [not_mem_decimal hc, hminus]

theorem not_mem_paddedSigned {width : Nat} {n : Int} {c : Char} (hc : c.isDigit = false)
    (hminus : c ≠ '-') : c ∉ paddedSigned width n := by
  unfold paddedSigned
  split_ifs <;> simp [not_mem_paddedDecimal hc, hminus]

theorem decimal_injective : Function.Injective decimal :=
  Function.LeftInverse.injective readDecimal_decimal

theorem paddedDecimal_injective (width : Nat) : Function.Injective (paddedDecimal width) :=
  Function.LeftInverse.injective (readDecimal_paddedDecimal width)

theorem signedDecimal_injective : Function.Injective signedDecimal := by
  intro a b hab
  simp only [signedDecimal] at hab
  split_ifs at hab with ha hb hb
  · have := decimal_injective (List.tail_eq_of_cons_eq hab)
    omega
  · exact absurd (hab ▸ List.mem_cons_self) (not_mem_decimal (by decide))
  · exact absurd (hab.symm ▸ List.mem_cons_self) (not_mem_decimal (by decide))
  · have := decimal_injective hab
    omega

theorem append_cons_inj {separator : Char} {front front' back back' : Text}
    (hfront : separator ∉ front) (hfront' : separator ∉ front')
    (h : front ++ separator :: back = front' ++ separator :: back') :
    front = front' ∧ back = back' := by
  induction front generalizing front' with
  | nil =>
    cases front' with
    | nil => exact ⟨rfl, List.tail_eq_of_cons_eq h⟩
    | cons c rest => exact absurd (List.head_eq_of_cons_eq h ▸ List.mem_cons_self) hfront'
  | cons c rest ih =>
    cases front' with
    | nil => exact absurd (List.head_eq_of_cons_eq h ▸ List.mem_cons_self) hfront
    | cons c' rest' =>
      rw [List.mem_cons, not_or] at hfront hfront'
      obtain ⟨hrest, hback⟩ := ih hfront.2 hfront'.2 (List.tail_eq_of_cons_eq h)
      exact ⟨by rw [List.head_eq_of_cons_eq h, hrest], hback⟩

/-! ### Cutting and measuring decimal texts -/

theorem decimal_ne_nil (n : Nat) : decimal n ≠ [] := by
  rw [decimal]
  exact Nat.toDigits_ne_nil

theorem paddedDecimal_ne_nil (width n : Nat) : paddedDecimal width n ≠ [] := by
  simp [paddedDecimal, decimal_ne_nil]

/-- A run of digits ends at the first character that is no digit. -/
theorem digits_append_inj {front front' back back' : Text} (hfront : ∀ c ∈ front, c.isDigit)
    (hfront' : ∀ c ∈ front', c.isDigit) (hback : ∀ c ∈ back.head?, c.isDigit = false)
    (hback' : ∀ c ∈ back'.head?, c.isDigit = false) (heq : front ++ back = front' ++ back') :
    front = front' ∧ back = back' := by
  induction front generalizing front' with
  | nil =>
    cases front' with
    | nil => exact ⟨rfl, heq⟩
    | cons c rest =>
      have hdigit := hfront' c List.mem_cons_self
      rw [hback c (by rw [show back = c :: (rest ++ back') from heq]; rfl)] at hdigit
      exact Bool.noConfusion hdigit
  | cons c rest ih =>
    cases front' with
    | nil =>
      have hdigit := hfront c List.mem_cons_self
      rw [hback' c (by rw [show back' = c :: (rest ++ back) from heq.symm]; rfl)] at hdigit
      exact Bool.noConfusion hdigit
    | cons c' rest' =>
      rw [List.forall_mem_cons] at hfront hfront'
      obtain ⟨hrest, hback⟩ := ih hfront.2 hfront'.2 (List.tail_eq_of_cons_eq heq)
      exact ⟨by rw [List.head_eq_of_cons_eq heq, hrest], hback⟩

/-- Padded numbers in front of the same separator are told apart, the sign included. -/
theorem paddedSigned_append_inj {width : Nat} {a b : Int} {separator : Char} {x y : Text}
    (hseparator : separator.isDigit = false)
    (heq : paddedSigned width a ++ separator :: x = paddedSigned width b ++ separator :: y) :
    a = b ∧ x = y := by
  have hminus (n m : Nat) (u v : Text) : paddedDecimal n m ++ u ≠ '-' :: v := by
    cases hpad : paddedDecimal n m with
    | nil => exact absurd hpad (paddedDecimal_ne_nil n m)
    | cons c rest =>
      intro hhead
      have hdigit :=
        isDigit_of_mem_paddedDecimal (hpad ▸ List.mem_cons_self : c ∈ paddedDecimal n m)
      rw [List.head_eq_of_cons_eq hhead] at hdigit
      exact absurd hdigit (by decide)
  simp only [paddedSigned] at heq
  split_ifs at heq with ha hb hb
  · obtain ⟨hnumber, hrest⟩ := append_cons_inj (not_mem_paddedDecimal hseparator)
      (not_mem_paddedDecimal hseparator) (List.tail_eq_of_cons_eq heq)
    have := paddedDecimal_injective _ hnumber
    exact ⟨by omega, hrest⟩
  · exact absurd heq.symm (hminus _ _ _ _)
  · exact absurd heq (hminus _ _ _ _)
  · obtain ⟨hnumber, hrest⟩ := append_cons_inj (not_mem_paddedDecimal hseparator)
      (not_mem_paddedDecimal hseparator) heq
    have := paddedDecimal_injective _ hnumber
    exact ⟨by omega, hrest⟩

theorem length_decimal_le {width n : Nat} (hwidth : 0 < width) (hn : n < 10 ^ width) :
    (decimal n).length ≤ width :=
  (Nat.length_toDigits_le_iff (by decide) hwidth).mpr hn

/-- A number that fits is padded to exactly its width. -/
theorem length_paddedDecimal {width n : Nat} (hwidth : 0 < width) (hn : n < 10 ^ width) :
    (paddedDecimal width n).length = width := by
  have := length_decimal_le hwidth hn
  rw [paddedDecimal, List.length_append, List.length_replicate]
  omega

end RelytIngest.Foundations
