import Mathlib.Tactic.NormNum

/-!
# Machine integers

`wrapI64` is the value a two's-complement 64-bit result has: arithmetic that leaves the range comes
back from the other end. `wrapI64_of_mem` is the case of a result in range, `wrapI64_succ_max` the
one step past the end, and `wrapI64_mem` says that every result is in range.

`checkedI64` is a result of arithmetic that is checked: one that leaves the range has no value, and
any other has the value that wrapping arithmetic gives it (`checkedI64_eq_wrapI64`).
-/

set_option autoImplicit false
set_option relaxedAutoImplicit false

namespace RelytIngest.Foundations

def i64Max : Int := 9223372036854775807

def i64Min : Int := -9223372036854775808

/-- The signed 64-bit value of an exact result. -/
def wrapI64 (value : Int) : Int := value.bmod (2 ^ 64)

theorem wrapI64_eq (value : Int) :
    wrapI64 value =
      value % 18446744073709551616 -
        if 9223372036854775808 ≤ value % 18446744073709551616 then 18446744073709551616 else 0 := by
  rw [wrapI64, Int.bmod_eq_emod]
  norm_num

theorem wrapI64_mem (value : Int) : i64Min ≤ wrapI64 value ∧ wrapI64 value ≤ i64Max := by
  rw [wrapI64_eq]
  simp only [i64Min, i64Max]
  split_ifs <;> omega

theorem wrapI64_of_mem {value : Int} (hmin : i64Min ≤ value) (hmax : value ≤ i64Max) :
    wrapI64 value = value := by
  simp only [i64Min, i64Max] at hmin hmax
  rw [wrapI64_eq]
  split_ifs <;> omega

theorem wrapI64_succ_max : wrapI64 (i64Max + 1) = i64Min := by
  decide

/-! ### Checked results -/

/-- The result of an operation on `i64`, where it is in range. -/
def checkedI64 (value : Int) : Option Int :=
  if i64Min ≤ value ∧ value ≤ i64Max then some value else none

/-- The result of an operation on `u64`, where it is in range. -/
def checkedU64 (value : Int) : Option Nat :=
  if 0 ≤ value ∧ value < 2 ^ 64 then some value.toNat else none

/-- The result of an operation on `u32`, where it is in range. -/
def checkedU32 (value : Int) : Option Nat :=
  if 0 ≤ value ∧ value < 2 ^ 32 then some value.toNat else none

theorem checkedI64_of_mem {value : Int} (hmin : -9223372036854775808 ≤ value)
    (hmax : value ≤ 9223372036854775807) : checkedI64 value = some value :=
  if_pos ⟨hmin, hmax⟩

theorem checkedU64_of_mem {value : Int} (n : Nat) (hvalue : value = n) (hmax : n < 2 ^ 64) :
    checkedU64 value = some n := by
  rw [checkedU64, if_pos (by omega), hvalue, Int.toNat_natCast]

theorem checkedU32_of_mem {value : Int} (n : Nat) (hvalue : value = n) (hmax : n < 2 ^ 32) :
    checkedU32 value = some n := by
  rw [checkedU32, if_pos (by omega), hvalue, Int.toNat_natCast]

theorem checkedI64_eq_wrapI64 {value : Int} (hmin : i64Min ≤ value) (hmax : value ≤ i64Max) :
    checkedI64 value = some (wrapI64 value) := by
  rw [wrapI64_of_mem hmin hmax]
  exact checkedI64_of_mem hmin hmax

theorem checkedI64_eq_none_iff {value : Int} :
    checkedI64 value = none ↔ value < i64Min ∨ i64Max < value := by
  rw [checkedI64, ite_eq_right_iff]
  simp only [reduceCtorEq, imp_false]
  omega

end RelytIngest.Foundations
