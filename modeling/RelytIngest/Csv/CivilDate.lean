import RelytIngest.Csv.Formatter

/-!
# The calendar of the date formatter

`daysFromCivil` counts the days of a calendar date, and `daysFromCivil_civilFromDays` says that it
takes the date the formatter computes back to the day it came from, so different days are different
dates. Inside an era of 400 years the argument is the bound on the day of the year
(`dayOfYear_bounds`): the year found never starts after the day and the day is never past its end.
-/

set_option autoImplicit false
set_option relaxedAutoImplicit false

namespace RelytIngest

/-- The days before a year of the era. -/
def yearStart (yoe : Nat) : Nat := 365 * yoe + yoe / 4 - yoe / 100

/-- Days since 1970-01-01 of a calendar date. -/
def daysFromCivil (date : CivilDate) : Int :=
  let y := if date.month ≤ 2 then date.year - 1 else date.year
  let yoe := (y % 400).toNat
  let mp := if date.month ≤ 2 then date.month + 9 else date.month - 3
  let doy := (153 * mp + 2) / 5 + date.day - 1
  y / 400 * 146097 + (yearStart yoe + doy : Nat) - 719468

/-- The truncating division of the source computes the era as a floor. -/
theorem era_eq_floor (z : Int) :
    (if 0 ≤ z then z else z - 146096).tdiv 146097 = z / 146097 := by
  rw [Int.tdiv_eq_ediv]
  have hsign : Int.sign 146097 = 1 := rfl
  rw [hsign]
  split_ifs <;> omega

/-- The year of a day of the era starts at or before it and ends after it. The cases are the
centuries of the day and of the year; within them the divisions are linear. -/
theorem dayOfYear_bounds {doe yoe : Nat} (hdoe : doe < 146097)
    (hyoe : yoe = (doe - doe / 1460 + doe / 36524 - doe / 146096) / 365) :
    yoe ≤ 399 ∧ yearStart yoe ≤ doe ∧ doe - yearStart yoe ≤ 365 := by
  have hle : yoe ≤ 399 := by omega
  have hcentury : yoe / 100 = 0 ∨ yoe / 100 = 1 ∨ yoe / 100 = 2 ∨ yoe / 100 = 3 := by omega
  have hlast : doe / 146096 = 0 ∨ doe = 146096 := by omega
  refine ⟨hle, ?_⟩
  unfold yearStart
  rcases hlast with hlast | rfl
  · have hday : doe / 36524 = 0 ∨ doe / 36524 = 1 ∨ doe / 36524 = 2 ∨ doe / 36524 = 3 ∨
        doe / 36524 = 4 := by omega
    rw [hlast] at hyoe
    rcases hday with hday | hday | hday | hday | hday <;> rw [hday] at hyoe <;>
      rcases hcentury with hcentury | hcentury | hcentury | hcentury <;> rw [hcentury] <;>
        constructor <;> omega
  · subst hyoe
    decide

/-- Month and day, counted from March, name the day of the year. -/
theorem monthDay_roundTrip {doy mp : Nat} (hdoy : doy ≤ 365) (hmp : mp = (5 * doy + 2) / 153) :
    mp ≤ 11 ∧ (153 * mp + 2) / 5 ≤ doy := by
  omega

theorem daysFromCivil_civilFromDays (days : Int) : daysFromCivil (civilFromDays days) = days := by
  simp only [civilFromDays, era_eq_floor]
  have hdoe : days + 719468 - (days + 719468) / 146097 * 146097 = (days + 719468) % 146097 := by
    omega
  rw [hdoe]
  generalize hera : (days + 719468) / 146097 = era
  have hlt : ((days + 719468) % 146097).toNat < 146097 := by omega
  have hcast : (((days + 719468) % 146097).toNat : Int) = days + 719468 - era * 146097 := by omega
  generalize ((days + 719468) % 146097).toNat = doe at hlt hcast
  generalize hyoe : (doe - doe / 1460 + doe / 36524 - doe / 146096) / 365 = yoe
  obtain ⟨hyear, hstart, hend⟩ := dayOfYear_bounds hlt hyoe.symm
  have hdoy : doe - (365 * yoe + yoe / 4 - yoe / 100) = doe - yearStart yoe := rfl
  rw [hdoy]
  generalize hday : doe - yearStart yoe = doy at hend
  generalize hmp : (5 * doy + 2) / 153 = mp
  obtain ⟨hmonth, hle⟩ := monthDay_roundTrip hend hmp.symm
  have hyoe' : (((yoe : Int) + era * 400) % 400).toNat = yoe := by omega
  have hera' : ((yoe : Int) + era * 400) / 400 = era := by omega
  have hdays : era * 146097 + (yearStart yoe + doy : Nat) - 719468 = days := by omega
  by_cases hten : mp < 10
  · have hafter : ¬ mp + 3 ≤ 2 := by omega
    have hback : mp + 3 - 3 = mp := by omega
    have hdoy' : (153 * mp + 2) / 5 + (doy - (153 * mp + 2) / 5 + 1) - 1 = doy := by omega
    simp only [daysFromCivil, if_pos hten, if_neg hafter, hyoe', hera', hback, hdoy', hdays]
  · have hbefore : mp - 9 ≤ 2 := by omega
    have hback : mp - 9 + 9 = mp := by omega
    have hyear' : (yoe : Int) + era * 400 + 1 - 1 = yoe + era * 400 := by omega
    have hdoy' : (153 * mp + 2) / 5 + (doy - (153 * mp + 2) / 5 + 1) - 1 = doy := by omega
    simp only [daysFromCivil, if_neg hten, if_pos hbefore, hyear', hyoe', hera', hback, hdoy',
      hdays]

theorem civilFromDays_injective : Function.Injective civilFromDays :=
  Function.LeftInverse.injective daysFromCivil_civilFromDays

end RelytIngest
