import RelytIngest.Csv.CellText
import RelytIngest.Foundations.Calendar
import RelytIngest.Foundations.DecimalValue
import RelytIngest.Foundations.MachineInteger
import RelytIngest.Foundations.TextCut

/-!
# Dates and timestamps are exact

The formatter computes the date of a day number and writes it, with the time of the day behind it
for a timestamp. The date is one of the calendar and its day number is the one it was computed from
(`civilFromDays_real`, `dayNumber_civilFromDays`), no step of the computation leaves its integer
type (`civilFromDaysChecked_eq`), and a reader that insists on fields of two digits, a real date, a
time within the day and a fraction without a trailing zero gets back what was written
(`calendar_exact`).
-/

set_option autoImplicit false
set_option relaxedAutoImplicit false

namespace RelytIngest

open Foundations

/-! ### The date is a real one -/

namespace CivilDate

/-- The date is one of the calendar. -/
def IsReal (date : CivilDate) : Prop := IsDate date.year date.month date.day

instance (date : CivilDate) : Decidable date.IsReal := inferInstanceAs (Decidable (IsDate _ _ _))

/-- The days from 1970-01-01 to the date. -/
def dayNumber (date : CivilDate) : Int := Foundations.dayNumber date.year date.month date.day

end CivilDate

/-- The day behind a year of 365 days belongs to the next one. -/
theorem yearOfEra_ne : ∀ yoe : Nat, yoe < 400 → ¬ IsLeap (yoe + 1) →
    (yearStart yoe + 365 - (yearStart yoe + 365) / 1460 + (yearStart yoe + 365) / 36524 -
      (yearStart yoe + 365) / 146096) / 365 ≠ yoe := by
  decide +kernel

/-- A year of the era has a day 366 only where the February it ends with has a leap day. -/
theorem leap_of_dayOfYear {doe yoe : Nat} (hdoe : doe < 146097)
    (hyoe : yoe = (doe - doe / 1460 + doe / 36524 - doe / 146096) / 365)
    (hlast : doe - yearStart yoe = 365) : IsLeap (yoe + 1) := by
  obtain ⟨hyear, hstart, -⟩ := dayOfYear_bounds hdoe hyoe
  have hday : doe = yearStart yoe + 365 := by omega
  by_contra hleap
  have hnext := yearOfEra_ne yoe (by omega) hleap
  rw [← hday] at hnext
  exact hnext hyoe.symm

/-- From March on, a month ends where the next one starts. -/
theorem length_of_marchMonth (year : Int) {mp : Nat} (hmp : mp ≤ 10) :
    monthLength year (if mp < 10 then mp + 3 else mp - 9) =
      (153 * (mp + 1) + 2) / 5 - (153 * mp + 2) / 5 := by
  interval_cases mp <;> rfl

theorem civilFromDays_real (days : Int) : (civilFromDays days).IsReal := by
  simp only [civilFromDays, era_eq_floor]
  have hdoe : days + 719468 - (days + 719468) / 146097 * 146097 = (days + 719468) % 146097 := by
    omega
  rw [hdoe]
  generalize (days + 719468) / 146097 = era
  have hlt : ((days + 719468) % 146097).toNat < 146097 := by omega
  generalize ((days + 719468) % 146097).toNat = doe at hlt
  generalize hyoe : (doe - doe / 1460 + doe / 36524 - doe / 146096) / 365 = yoe
  obtain ⟨-, -, hend⟩ := dayOfYear_bounds hlt hyoe.symm
  have hleap := leap_of_dayOfYear hlt hyoe.symm
  have hdoy : doe - (365 * yoe + yoe / 4 - yoe / 100) = doe - yearStart yoe := rfl
  rw [hdoy]
  generalize doe - yearStart yoe = doy at hend hleap
  generalize hmp : (5 * doy + 2) / 153 = mp
  obtain ⟨hmonth, hle⟩ := monthDay_roundTrip hend hmp.symm
  have hlength : doy - (153 * mp + 2) / 5 + 1 ≤
      monthLength ((yoe : Int) + era * 400 + if mp < 10 then 0 else 1)
        (if mp < 10 then mp + 3 else mp - 9) := by
    by_cases hfebruary : mp = 11
    · subst hfebruary
      have hyear : doy = 365 → IsLeap ((yoe : Int) + era * 400 + 1) := by
        intro hdoy
        have := hleap hdoy
        unfold IsLeap at this ⊢
        omega
      show doy - 337 + 1 ≤ 28 + leapDay ((yoe : Int) + era * 400 + 1)
      unfold leapDay
      by_cases hlast : doy = 365
      · rw [if_pos (hyear hlast)]
        omega
      · omega
    · rw [length_of_marchMonth _ (by omega)]
      omega
  unfold CivilDate.IsReal IsDate
  by_cases hten : mp < 10
  · have hafter : ¬ mp + 3 ≤ 2 := by omega
    simp only [if_pos hten, add_zero] at hlength
    simp only [if_pos hten, if_neg hafter]
    omega
  · have hbefore : mp - 9 ≤ 2 := by omega
    simp only [if_neg hten] at hlength
    simp only [if_neg hten, if_pos hbefore]
    omega

/-- The count of the formatter's own inverse is the count of the calendar. -/
theorem CivilDate.IsReal.dayNumber_eq {date : CivilDate} (h : date.IsReal) :
    date.dayNumber = daysFromCivil date := by
  have hday := h.2.2.1
  rw [CivilDate.dayNumber, Foundations.dayNumber_eq h]
  simp only [daysFromCivil, yearStart]
  by_cases hearly : date.month ≤ 2
  · simp only [if_pos hearly]
    omega
  · simp only [if_neg hearly]
    omega

theorem dayNumber_civilFromDays (days : Int) : (civilFromDays days).dayNumber = days := by
  rw [(civilFromDays_real days).dayNumber_eq, daysFromCivil_civilFromDays]

/-! ### No step leaves its integer type -/

/-- The era of 400 years and the day within it, with every step checked. -/
def eraDayChecked (days : Int) : Option (Int × Nat) := do
  let z ← checkedI64 (days + 719468)
  let shifted ← checkedI64 (if 0 ≤ z then z else z - 146096)
  let era := shifted.tdiv 146097
  let eraStart ← checkedI64 (era * 146097)
  let doe ← checkedU64 (z - eraStart)
  return (era, doe)

/-- The year of the era and the day within it. -/
def yearDayChecked (doe : Nat) : Option (Nat × Nat) := do
  let fourths ← checkedU64 (doe - (doe / 1460 : Nat))
  let centuries ← checkedU64 (fourths + (doe / 36524 : Nat))
  let daysOfYears ← checkedU64 (centuries - (doe / 146096 : Nat))
  let yoe := daysOfYears / 365
  let years ← checkedU64 (365 * yoe)
  let withLeaps ← checkedU64 (years + (yoe / 4 : Nat))
  let start ← checkedU64 (withLeaps - (yoe / 100 : Nat))
  let doy ← checkedU64 (doe - start)
  return (yoe, doy)

/-- The month of the year and the day within it. -/
def monthDayChecked (doy : Nat) : Option (Nat × Nat) := do
  let fifths ← checkedU64 (5 * doy + 2)
  let mp := fifths / 153
  let monthFifths ← checkedU64 (153 * mp + 2)
  let passed ← checkedU64 (doy - (monthFifths / 5 : Nat))
  let d ← checkedU64 (passed + 1)
  let m ← checkedU64 (if mp < 10 then mp + 3 else mp - 9)
  return (m, d)

/-- The computation of `write_date32`, with every step checked against its integer type. -/
def civilFromDaysChecked (days : Int) : Option CivilDate := do
  let (era, doe) ← eraDayChecked days
  let (yoe, doy) ← yearDayChecked doe
  let eraYears ← checkedI64 (era * 400)
  let y ← checkedI64 (yoe + eraYears)
  let (m, d) ← monthDayChecked doy
  let year ← checkedI64 (if m ≤ 2 then y + 1 else y)
  return ⟨year, m, d⟩

/-- The rest of a computation goes on with a result that is in range. -/
theorem bind_of_eq_some {α β : Type} {x : Option α} {a : α} (h : x = some a) (f : α → Option β) :
    (x >>= f) = f a := by
  rw [h]
  rfl

theorem eraDayChecked_eq {days : Int} (hlower : -2147483648 ≤ days) (hupper : days < 2147483648) :
    eraDayChecked days = some ((days + 719468) / 146097, ((days + 719468) % 146097).toNat) := by
  unfold eraDayChecked
  refine (bind_of_eq_some (checkedI64_of_mem (by omega) (by omega)) _).trans ?_
  refine (bind_of_eq_some (checkedI64_of_mem (by split_ifs <;> omega)
    (by split_ifs <;> omega)) _).trans ?_
  simp only [era_eq_floor]
  refine (bind_of_eq_some (checkedI64_of_mem (by omega) (by omega)) _).trans ?_
  exact bind_of_eq_some
    (checkedU64_of_mem ((days + 719468) % 146097).toNat (by omega) (by omega)) _

theorem yearDayChecked_eq {doe yoe : Nat} (hdoe : doe < 146097)
    (hyoe : yoe = (doe - doe / 1460 + doe / 36524 - doe / 146096) / 365) :
    yearDayChecked doe = some (yoe, doe - yearStart yoe) := by
  obtain ⟨hyear, hstart, -⟩ := dayOfYear_bounds hdoe hyoe
  unfold yearStart at hstart
  unfold yearDayChecked
  refine (bind_of_eq_some (checkedU64_of_mem (doe - doe / 1460) (by omega) (by omega)) _).trans ?_
  refine (bind_of_eq_some (checkedU64_of_mem (doe - doe / 1460 + doe / 36524) (by omega)
    (by omega)) _).trans ?_
  refine (bind_of_eq_some (checkedU64_of_mem (doe - doe / 1460 + doe / 36524 - doe / 146096)
    (by omega) (by omega)) _).trans ?_
  simp only [← hyoe]
  refine (bind_of_eq_some (checkedU64_of_mem (365 * yoe) (by omega) (by omega)) _).trans ?_
  refine (bind_of_eq_some (checkedU64_of_mem (365 * yoe + yoe / 4) (by omega)
    (by omega)) _).trans ?_
  refine (bind_of_eq_some (checkedU64_of_mem (365 * yoe + yoe / 4 - yoe / 100) (by omega)
    (by omega)) _).trans ?_
  exact bind_of_eq_some (checkedU64_of_mem (doe - yearStart yoe) (by unfold yearStart; omega)
    (by omega)) _

theorem monthDayChecked_eq {doy mp : Nat} (hdoy : doy ≤ 365) (hmp : mp = (5 * doy + 2) / 153) :
    monthDayChecked doy =
      some (if mp < 10 then mp + 3 else mp - 9, doy - (153 * mp + 2) / 5 + 1) := by
  obtain ⟨hmonth, hday⟩ := monthDay_roundTrip hdoy hmp
  unfold monthDayChecked
  refine (bind_of_eq_some (checkedU64_of_mem (5 * doy + 2) (by omega) (by omega)) _).trans ?_
  simp only [← hmp]
  refine (bind_of_eq_some (checkedU64_of_mem (153 * mp + 2) (by omega) (by omega)) _).trans ?_
  refine (bind_of_eq_some (checkedU64_of_mem (doy - (153 * mp + 2) / 5) (by omega)
    (by omega)) _).trans ?_
  refine (bind_of_eq_some (checkedU64_of_mem (doy - (153 * mp + 2) / 5 + 1) (by omega)
    (by omega)) _).trans ?_
  exact bind_of_eq_some (checkedU64_of_mem (if mp < 10 then mp + 3 else mp - 9)
    (by split_ifs <;> omega) (by split_ifs <;> omega)) _

/-- The date of a 32-bit day number is computed without overflow. -/
theorem civilFromDaysChecked_eq (days : Signed 32) :
    civilFromDaysChecked days.value = some (civilFromDays days.value) := by
  obtain ⟨days, hlower, hupper⟩ := days
  norm_num at hlower hupper
  have hdoe : days + 719468 - (days + 719468) / 146097 * 146097 = (days + 719468) % 146097 := by
    omega
  have hlt : ((days + 719468) % 146097).toNat < 146097 := by omega
  simp only [civilFromDays, era_eq_floor, hdoe]
  unfold civilFromDaysChecked
  refine (bind_of_eq_some (eraDayChecked_eq hlower hupper) _).trans ?_
  generalize hera : (days + 719468) / 146097 = era
  have hbounds : -14700 ≤ era ∧ era ≤ 14704 := by omega
  generalize ((days + 719468) % 146097).toNat = doe at hlt
  generalize hyoe : (doe - doe / 1460 + doe / 36524 - doe / 146096) / 365 = yoe
  obtain ⟨hyear, -, hend⟩ := dayOfYear_bounds hlt hyoe.symm
  refine (bind_of_eq_some (yearDayChecked_eq hlt hyoe.symm) _).trans ?_
  refine (bind_of_eq_some (checkedI64_of_mem (by omega) (by omega)) _).trans ?_
  refine (bind_of_eq_some (checkedI64_of_mem (by omega) (by omega)) _).trans ?_
  refine (bind_of_eq_some (monthDayChecked_eq hend rfl) _).trans ?_
  exact bind_of_eq_some (checkedI64_of_mem (by split_ifs <;> omega) (by split_ifs <;> omega)) _

/-! ### Reading the text back -/

/-- A number of exactly so many digits. -/
def fixedDigits (width : Nat) (text : Text) : Option Nat :=
  if text.length = width then digitsValue text else none

/-- A year, a month and a day of a real date; the minus sign counts towards the four characters of
the year. -/
def readDate (text : Text) : Option CivilDate := do
  let negative := decide (text.head? = some '-')
  let (year, rest) ← splitOnce '-' (if negative then text.tail else text)
  let (month, day) ← splitOnce '-' rest
  let y ← digitsValue year
  let m ← fixedDigits 2 month
  let d ← fixedDigits 2 day
  let date : CivilDate := ⟨if negative then -(y : Int) else y, m, d⟩
  if (if negative then 3 else 4) ≤ year.length ∧ date.IsReal then some date else none

/-- A time of the day in seconds. -/
def readClock (text : Text) : Option Nat := do
  let (hour, rest) ← splitOnce ':' text
  let (minute, second) ← splitOnce ':' rest
  let h ← fixedDigits 2 hour
  let m ← fixedDigits 2 minute
  let s ← fixedDigits 2 second
  if h < 24 ∧ m < 60 ∧ s < 60 then some (h * 3600 + m * 60 + s) else none

/-- The microseconds of a fraction of at most six digits, the last of which is not zero. -/
def readFraction (digits : Text) : Option Nat := do
  let value ← digitsValue digits
  if digits.length ≤ 6 ∧ digits.getLast? ≠ some '0' then some (value * 10 ^ (6 - digits.length))
  else none

/-- A time of the day in microseconds, with its fraction where it has one. -/
def readTime (text : Text) : Option Nat :=
  match splitOnce '.' text with
  | none => (readClock text).map (· * 1000000)
  | some (clock, fraction) => do
    let secs ← readClock clock
    let micros ← readFraction fraction
    return secs * 1000000 + micros

/-- A timestamp in microseconds since 1970-01-01 00:00:00, and whether its offset is written. -/
def readTimestamp (text : Text) : Option (Int × Bool) := do
  let (date, time) ← splitOnce ' ' text
  let day ← readDate date
  match splitOnce '+' time with
  | none => (readTime time).map fun micros : Nat ↦ (day.dayNumber * 86400000000 + micros, false)
  | some (clock, offset) =>
    if offset = "00".toList then
      (readTime clock).map fun micros : Nat ↦ (day.dayNumber * 86400000000 + micros, true)
    else none

theorem digitsValue_paddedDecimal (width n : Nat) : digitsValue (paddedDecimal width n) = some n :=
  digitsValue_eq_some_iff.mpr ⟨paddedDecimal_ne_nil width n,
    fun _ hc ↦ isDigit_of_mem_paddedDecimal hc, readDecimal_paddedDecimal width n⟩

theorem fixedDigits_paddedDecimal {width n : Nat} (hwidth : 0 < width) (hn : n < 10 ^ width) :
    fixedDigits width (paddedDecimal width n) = some n := by
  rw [fixedDigits, if_pos (length_paddedDecimal hwidth hn), digitsValue_paddedDecimal]

/-- A date text begins with a minus sign exactly in a year before the year zero. -/
theorem head?_paddedSigned (width : Nat) (n : Int) (rest : Text) :
    (paddedSigned width n ++ rest).head? = some '-' ↔ n < 0 := by
  unfold paddedSigned
  by_cases hn : n < 0
  · simp [hn]
  · rw [if_neg hn]
    refine iff_of_false (fun hhead ↦ ?_) hn
    have hne := paddedDecimal_ne_nil width n.natAbs
    rw [List.head?_append_of_ne_nil _ hne] at hhead
    exact not_mem_paddedDecimal (by decide) (List.mem_of_mem_head? hhead)

/-- A real date is read back. -/
theorem readDate_dateText {date : CivilDate} (h : date.IsReal) :
    readDate (paddedSigned 4 date.year ++ '-' :: (paddedDecimal 2 date.month ++
      '-' :: paddedDecimal 2 date.day)) = some date := by
  have hmonth : date.month < 10 ^ 2 := by
    have := h.2.1
    omega
  have hday : date.day < 10 ^ 2 := by
    have := h.2.2.2.trans (monthLength_le date.year date.month)
    omega
  have hdash (width n : Nat) : '-' ∉ paddedDecimal width n := not_mem_paddedDecimal (by decide)
  unfold readDate
  simp only [head?_paddedSigned]
  by_cases hyear : date.year < 0
  · have hvalue : -(date.year.natAbs : Int) = date.year := by omega
    have hwidth : 3 ≤ (paddedDecimal 3 date.year.natAbs).length := by
      rw [length_paddedDecimal_eq]
      exact Nat.le_max_left _ _
    simp only [hyear, paddedSigned, decide_true, if_true, List.cons_append, List.tail_cons]
    refine (bind_of_eq_some (splitOnce_append (hdash _ _)) _).trans ?_
    refine (bind_of_eq_some (splitOnce_append (hdash _ _)) _).trans ?_
    refine (bind_of_eq_some (digitsValue_paddedDecimal _ _) _).trans ?_
    refine (bind_of_eq_some (fixedDigits_paddedDecimal (by decide) hmonth) _).trans ?_
    refine (bind_of_eq_some (fixedDigits_paddedDecimal (by decide) hday) _).trans ?_
    simp only [hvalue]
    exact if_pos ⟨hwidth, h⟩
  · have hvalue : (date.year.natAbs : Int) = date.year := by omega
    have hwidth : 4 ≤ (paddedDecimal 4 date.year.natAbs).length := by
      rw [length_paddedDecimal_eq]
      exact Nat.le_max_left _ _
    simp only [hyear, paddedSigned, decide_false, if_false, Bool.false_eq_true]
    refine (bind_of_eq_some (splitOnce_append (hdash _ _)) _).trans ?_
    refine (bind_of_eq_some (splitOnce_append (hdash _ _)) _).trans ?_
    refine (bind_of_eq_some (digitsValue_paddedDecimal _ _) _).trans ?_
    refine (bind_of_eq_some (fixedDigits_paddedDecimal (by decide) hmonth) _).trans ?_
    refine (bind_of_eq_some (fixedDigits_paddedDecimal (by decide) hday) _).trans ?_
    simp only [hvalue]
    exact if_pos ⟨hwidth, h⟩

theorem readDate_date32Text (days : Int) :
    readDate (date32Text days) = some (civilFromDays days) := by
  have htext := readDate_dateText (civilFromDays_real days)
  simp only [date32Text, List.append_assoc, List.cons_append]
  exact htext

/-- The hour, the minute and the second of a day are read back. -/
theorem readClock_text {secs : Nat} (hsecs : secs < 86400) :
    readClock (paddedDecimal 2 (secs / 3600) ++ ':' :: (paddedDecimal 2 (secs % 3600 / 60) ++
      ':' :: paddedDecimal 2 (secs % 60))) = some secs := by
  have hcolon (n : Nat) : ':' ∉ paddedDecimal 2 n := not_mem_paddedDecimal (by decide)
  unfold readClock
  refine (bind_of_eq_some (splitOnce_append (hcolon _)) _).trans ?_
  refine (bind_of_eq_some (splitOnce_append (hcolon _)) _).trans ?_
  refine (bind_of_eq_some (fixedDigits_paddedDecimal (by decide) (by omega)) _).trans ?_
  refine (bind_of_eq_some (fixedDigits_paddedDecimal (by decide) (by omega)) _).trans ?_
  refine (bind_of_eq_some (fixedDigits_paddedDecimal (by decide) (by omega)) _).trans ?_
  have hsum : secs / 3600 * 3600 + secs % 3600 / 60 * 60 + secs % 60 = secs := by omega
  simp only [hsum]
  exact if_pos (by omega)

/-- A trimmed fraction that is not zero does not end with a zero. -/
theorem trimFraction_last (width frac : Nat) (hfrac : frac < 10 ^ width) (hzero : frac ≠ 0) :
    (trimFraction width frac).1 % 10 ≠ 0 := by
  induction width generalizing frac with
  | zero => exact absurd (Nat.lt_one_iff.mp hfrac) hzero
  | succ width ih =>
    rw [trimFraction]
    split_ifs with hlast
    · exact ih (frac / 10) (by rw [Nat.pow_succ] at hfrac; omega) (by omega)
    · exact hlast

/-- The text of a fraction is read back. -/
theorem readFraction_text {frac : Nat} (hfrac : frac < 10 ^ 6) (hzero : frac ≠ 0) :
    readFraction (paddedDecimal (trimFraction 6 frac).2 (trimFraction 6 frac).1) = some frac := by
  obtain ⟨hwidth, hlt, hvalue⟩ := trimFraction_spec 6 frac hfrac
  have hlast := trimFraction_last 6 frac hfrac hzero
  generalize trimFraction 6 frac = trimmed at hwidth hlt hvalue hlast
  have hpos : 0 < trimmed.2 := by
    by_contra hnot
    rw [Nat.eq_zero_of_not_pos hnot, Nat.pow_zero, Nat.lt_one_iff] at hlt
    omega
  have hlength := length_paddedDecimal hpos hlt
  unfold readFraction
  refine (bind_of_eq_some (digitsValue_paddedDecimal _ _) _).trans ?_
  rw [hlength, ← hvalue]
  refine if_pos ⟨hwidth, fun hzeroLast ↦ hlast ?_⟩
  obtain ⟨front, hfront⟩ := List.getLast?_eq_some_iff.mp hzeroLast
  have hread := readDecimal_paddedDecimal trimmed.2 trimmed.1
  rw [hfront, readDecimal_append] at hread
  have hdigit : readDecimal ['0'] = 0 := by decide
  rw [hdigit, List.length_singleton] at hread
  omega

/-- The time of a day is read back, with its fraction. -/
theorem readTime_text {inDay : Nat} (hinDay : inDay < 86400000000) :
    readTime (paddedDecimal 2 (inDay / 1000000 / 3600) ++
      ':' :: (paddedDecimal 2 (inDay / 1000000 % 3600 / 60) ++
        ':' :: (paddedDecimal 2 (inDay / 1000000 % 60) ++ fractionText (inDay % 1000000)))) =
      some inDay := by
  have hsecs : inDay / 1000000 < 86400 := by omega
  have hclock := readClock_text hsecs
  have hdot (n : Nat) : '.' ∉ paddedDecimal 2 n := not_mem_paddedDecimal (by decide)
  generalize hfront : paddedDecimal 2 (inDay / 1000000 / 3600) ++
    ':' :: (paddedDecimal 2 (inDay / 1000000 % 3600 / 60) ++
      ':' :: paddedDecimal 2 (inDay / 1000000 % 60)) = clock at hclock
  have hplain : '.' ∉ clock := by
    simp [← hfront, hdot]
  have htext : paddedDecimal 2 (inDay / 1000000 / 3600) ++
      ':' :: (paddedDecimal 2 (inDay / 1000000 % 3600 / 60) ++
        ':' :: (paddedDecimal 2 (inDay / 1000000 % 60) ++ fractionText (inDay % 1000000))) =
      clock ++ fractionText (inDay % 1000000) := by
    rw [← hfront]
    simp only [List.append_assoc, List.cons_append]
  rw [htext, fractionText, readTime]
  by_cases hzero : inDay % 1000000 = 0
  · rw [if_pos hzero, List.append_nil, splitOnce_eq_none_iff.mpr hplain]
    simp only [hclock, Option.map_some, Option.some.injEq]
    omega
  · rw [if_neg hzero, splitOnce_append hplain]
    refine (bind_of_eq_some hclock _).trans ?_
    refine (bind_of_eq_some (readFraction_text (by omega) hzero) _).trans ?_
    exact congrArg some (by omega)

/-- The day of a 64-bit count of microseconds is a 32-bit number. -/
theorem timestamp_day_fits (micros : Signed 64) :
    -2147483648 ≤ micros.value / 86400000000 ∧ micros.value / 86400000000 < 2147483648 := by
  have hlower := micros.lower
  have hupper := micros.upper
  norm_num at hlower hupper
  omega

theorem plus_not_mem_fractionText (frac : Nat) : '+' ∉ fractionText frac := by
  unfold fractionText
  split_ifs
  · exact List.not_mem_nil
  · rw [List.mem_cons, not_or]
    exact ⟨by decide, not_mem_paddedDecimal (by decide)⟩

theorem readTimestamp_timestampText (micros : Signed 64) (withOffset : Bool) :
    readTimestamp (timestampText micros.value withOffset) = some (micros.value, withOffset) := by
  obtain ⟨hlower, hupper⟩ := timestamp_day_fits micros
  have hcast : (micros.value / 86400000000).bmod (2 ^ 32) = micros.value / 86400000000 :=
    Int.bmod_eq_of_le (by omega) (by omega)
  have hdate := not_mem_date32Text (c := ' ') (by decide) (by decide) (micros.value / 86400000000)
  have hinDay : (micros.value % 86400000000).toNat < 86400000000 := by omega
  have htime := readTime_text hinDay
  have hplus : '+' ∉ paddedDecimal 2 ((micros.value % 86400000000).toNat / 1000000 / 3600) ++
      ':' :: (paddedDecimal 2 ((micros.value % 86400000000).toNat / 1000000 % 3600 / 60) ++
        ':' :: (paddedDecimal 2 ((micros.value % 86400000000).toNat / 1000000 % 60) ++
          fractionText ((micros.value % 86400000000).toNat % 1000000))) := by
    have hdigits (n : Nat) : '+' ∉ paddedDecimal 2 n := not_mem_paddedDecimal (by decide)
    simp [hdigits, plus_not_mem_fractionText]
  have hsum : micros.value / 86400000000 * 86400000000 +
      ((micros.value % 86400000000).toNat : Int) = micros.value := by omega
  simp only [timestampText, hcast, List.append_assoc, List.cons_append]
  unfold readTimestamp
  refine (bind_of_eq_some (splitOnce_append hdate) _).trans ?_
  refine (bind_of_eq_some (readDate_date32Text _) _).trans ?_
  rw [dayNumber_civilFromDays]
  cases withOffset with
  | false =>
    simp only [Bool.false_eq_true, if_false, List.append_nil]
    rw [splitOnce_eq_none_iff.mpr hplus]
    simp only [htime, Option.map_some, hsum]
  | true =>
    have hcut (back : Text) := (splitOnce_append hplus : splitOnce '+' (_ ++ '+' :: back) = _)
    simp only [List.append_assoc, List.cons_append] at hcut
    have htail : "+00".toList = '+' :: "00".toList := rfl
    simp only [if_true, htail, hcut, htime, Option.map_some, hsum]

/-- The text of a day number is the real date with that number, computed without overflow, and the
text of a count of microseconds is read back as that count, whose day fits 32 bits. -/
theorem calendar_exact (days : Signed 32) (micros : Signed 64) (withOffset : Bool) :
    (∃ date : CivilDate, date.IsReal ∧ date.dayNumber = days.value ∧
      civilFromDaysChecked days.value = some date ∧
      readDate (date32Text days.value) = some date) ∧
      (-2147483648 ≤ micros.value / 86400000000 ∧ micros.value / 86400000000 < 2147483648) ∧
      readTimestamp (timestampText micros.value withOffset) = some (micros.value, withOffset) :=
  ⟨⟨civilFromDays days.value, civilFromDays_real _, dayNumber_civilFromDays _,
    civilFromDaysChecked_eq days, readDate_date32Text _⟩, timestamp_day_fits micros,
    readTimestamp_timestampText micros withOffset⟩

end RelytIngest
