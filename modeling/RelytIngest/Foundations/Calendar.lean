import Mathlib.Algebra.BigOperators.Intervals
import Mathlib.Tactic.IntervalCases
import Mathlib.Tactic.Ring

/-!
# The proleptic Gregorian calendar

Dates are a year, a month and a day within the length of the month (`IsDate`). `dayNumber` counts
the days from 1970-01-01 to a date, year by year and month by month; `daysFromYear_eq` sums the
years up and `dayNumber_eq` counts from the first of March, behind the day that leap years add.
-/

set_option autoImplicit false
set_option relaxedAutoImplicit false

namespace RelytIngest.Foundations

/-- Every fourth year is a leap year, of the centuries every fourth. -/
def IsLeap (year : Int) : Prop := year % 4 = 0 ∧ (year % 100 ≠ 0 ∨ year % 400 = 0)

instance (year : Int) : Decidable (IsLeap year) := inferInstanceAs (Decidable (_ ∧ _))

/-- The day that a leap year has more. -/
def leapDay (year : Int) : Nat := if IsLeap year then 1 else 0

def monthLength (year : Int) : Nat → Nat
  | 2 => 28 + leapDay year
  | 4 | 6 | 9 | 11 => 30
  | _ => 31

/-- The month is one of the year and the day one of the month. -/
def IsDate (year : Int) (month day : Nat) : Prop :=
  1 ≤ month ∧ month ≤ 12 ∧ 1 ≤ day ∧ day ≤ monthLength year month

instance (year : Int) (month day : Nat) : Decidable (IsDate year month day) :=
  inferInstanceAs (Decidable (_ ∧ _))

/-- The days of the year before a month. -/
def daysBeforeMonth (year : Int) (month : Nat) : Nat :=
  ∑ earlier ∈ Finset.range (month - 1), monthLength year (earlier + 1)

def yearLength (year : Int) : Nat := daysBeforeMonth year 13

/-- The days from 1970-01-01 to the first day of a year, negative for the years before. -/
def daysFromYear (year : Int) : Int :=
  ∑ passed ∈ Finset.range (year - 1970).toNat, (yearLength (1970 + passed) : Int) -
    ∑ missing ∈ Finset.range (1970 - year).toNat, (yearLength (year + missing) : Int)

/-- The days from 1970-01-01 to a date. -/
def dayNumber (year : Int) (month day : Nat) : Int :=
  daysFromYear year + daysBeforeMonth year month + day - 1

/-- The months make up the year. -/
theorem yearLength_eq (year : Int) : yearLength year = 365 + leapDay year := by
  simp only [yearLength, daysBeforeMonth, Finset.sum_range_succ, Finset.sum_range_zero, monthLength]
  omega

theorem monthLength_le (year : Int) (month : Nat) : monthLength year month ≤ 31 := by
  unfold monthLength leapDay
  split
  case h_1 => split_ifs <;> omega
  all_goals omega

/-- The leap days before a year. -/
def leapsBefore (year : Int) : Int := (year - 1) / 4 - (year - 1) / 100 + (year - 1) / 400

theorem leapDay_eq (year : Int) :
    (leapDay year : Int) = leapsBefore (year + 1) - leapsBefore year := by
  unfold leapDay leapsBefore
  by_cases hleap : IsLeap year
  · rw [if_pos hleap]
    obtain ⟨hfour, hcentury⟩ := hleap
    omega
  · rw [if_neg hleap]
    rw [IsLeap, not_and_or, not_or, not_not] at hleap
    omega

theorem sum_yearLength (year : Int) (count : Nat) :
    ∑ passed ∈ Finset.range count, (yearLength (year + passed) : Int) =
      365 * count + leapsBefore (year + count) - leapsBefore year := by
  induction count with
  | zero => simp
  | succ count ih =>
    rw [Finset.sum_range_succ, ih, yearLength_eq, Nat.cast_add, leapDay_eq]
    push_cast
    rw [← add_assoc year]
    ring

/-- The years up to a year, summed up. -/
theorem daysFromYear_eq (year : Int) :
    daysFromYear year = 365 * (year - 1970) + leapsBefore year - leapsBefore 1970 := by
  unfold daysFromYear
  rw [sum_yearLength, sum_yearLength]
  rcases le_total 1970 year with hafter | hbefore
  · have hpassed : ((year - 1970).toNat : Int) = year - 1970 := by omega
    have hmissing : (1970 - year).toNat = 0 := by omega
    rw [hmissing, hpassed, add_sub_cancel]
    simp
  · have hpassed : (year - 1970).toNat = 0 := by omega
    have hmissing : ((1970 - year).toNat : Int) = 1970 - year := by omega
    rw [hpassed, hmissing, add_sub_cancel]
    push_cast
    ring_nf

/-- The day number by the days since the first of March: in January and February of the year that
began in the March before. -/
theorem dayNumber_eq {year : Int} {month day : Nat} (hdate : IsDate year month day) :
    dayNumber year month day =
      if month ≤ 2 then
        365 * (year - 1) + (year - 1) / 4 - (year - 1) / 100 + (year - 1) / 400 +
          ((153 * (month + 9) + 2) / 5 : Nat) + day - 719469
      else
        365 * year + year / 4 - year / 100 + year / 400 + ((153 * (month - 3) + 2) / 5 : Nat) +
          day - 719469 := by
  obtain ⟨hlower, hupper, -, -⟩ := hdate
  have hleap := leapDay_eq year
  simp only [leapsBefore] at hleap
  rw [dayNumber, daysFromYear_eq]
  simp only [leapsBefore]
  have hmonth : (daysBeforeMonth year month : Int) =
      if month ≤ 2 then 31 * (month - 1)
      else 59 + leapDay year + ((153 * (month - 3) + 2) / 5 : Nat) := by
    interval_cases month <;>
      simp [daysBeforeMonth, Finset.sum_range_succ, monthLength] <;> omega
  rw [hmonth]
  by_cases hearly : month ≤ 2
  · rw [if_pos hearly, if_pos hearly]
    omega
  · rw [if_neg hearly, if_neg hearly]
    omega

end RelytIngest.Foundations
