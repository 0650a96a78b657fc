import GoldenFixtures.Time.Calendar
import Mathlib.Tactic.IntervalCases

/-!
# The calendar goes back and forth

`Date.ofDays` gives an existing date, and `Date.toDays` takes it back to the
day it came from.  A date lies between the first days of its year and of the next
one (`Date.toDays_bounds`).

The years of a cycle start in March.  A day of the cycle lies in one of its
centuries, in one of the four-year spans of the century, in one of the years of
the span; `exists_split` says how far each may go, and from this follows that
`yearOfCycle`, which divides by four numbers at once, finds the year.
-/

namespace GoldenFixtures.Time

/-! ## Leap years -/

theorem isLeapYear_iff (year : Int) :
    isLeapYear year = true ↔ year % 4 = 0 ∧ (year % 100 ≠ 0 ∨ year % 400 = 0) := by
  simp [isLeapYear]

/-- The years that start in March: the day from 0 exists in the year.  The last
day of such a year is the leap day of the year that follows it. -/
def IsDayOfYear (year day : Int) : Prop :=
  0 ≤ day ∧ (day ≤ 364 ∨ day = 365 ∧ isLeapYear (year + 1) = true)

/-- Leap days return with every cycle. -/
theorem isDayOfYear_add_cycle {year day : Int} (cycle : Int) (hday : IsDayOfYear year day) :
    IsDayOfYear (year + cycle * 400) day := by
  refine ⟨hday.1, hday.2.imp_right fun hlast => ⟨hlast.1, ?_⟩⟩
  have hleap := (isLeapYear_iff _).mp hlast.2
  rw [isLeapYear_iff]
  omega

/-! ## Days of a cycle -/

/-- The year of a cycle that a day of the cycle lies in. -/
def yearOfCycle (day : Int) : Int :=
  (day - day / 1460 + day / 36524 - day / 146096) / 365

theorem dayOfCycle_bounds (day : Int) :
    0 ≤ day - day / daysPerCycle * daysPerCycle ∧
      day - day / daysPerCycle * daysPerCycle < daysPerCycle := by
  unfold daysPerCycle
  omega

/-- The days of a cycle before one of its years. -/
def daysBeforeYear (year : Int) : Int := 365 * year + year / 4 - year / 100

/-- A day of a cycle splits into centuries, four-year spans, years and days.
Only the last year of a span has a leap day, and the last span of a century has
none, but for the last century. -/
theorem exists_split {day : Int} (hnonneg : 0 ≤ day) (hlt : day < daysPerCycle) :
    ∃ century span year rest : Int, day = 36524 * century + 1461 * span + 365 * year + rest ∧
      0 ≤ century ∧ century ≤ 3 ∧ 0 ≤ span ∧ span ≤ 24 ∧ 0 ≤ year ∧ year ≤ 3 ∧ 0 ≤ rest ∧
      (rest ≤ 364 ∨ rest = 365 ∧ year = 3 ∧ (span = 24 → century = 3)) := by
  unfold daysPerCycle at hlt
  obtain ⟨century, hcentury⟩ : ∃ century, century = min (day / 36524) 3 := ⟨_, rfl⟩
  obtain ⟨inCentury, hinCentury⟩ : ∃ rest, rest = day - 36524 * century := ⟨_, rfl⟩
  obtain ⟨span, hspan⟩ : ∃ span, span = inCentury / 1461 := ⟨_, rfl⟩
  obtain ⟨inSpan, hinSpan⟩ : ∃ rest, rest = inCentury - 1461 * span := ⟨_, rfl⟩
  obtain ⟨year, hyear⟩ : ∃ year, year = min (inSpan / 365) 3 := ⟨_, rfl⟩
  have hcenturyBound : 0 ≤ inCentury ∧ (inCentury ≤ 36523 ∨ inCentury = 36524 ∧ century = 3) := by
    omega
  have hspanBound : 0 ≤ inSpan ∧ inSpan ≤ 1460 ∧ (span = 24 → inCentury = 35064 + inSpan) := by
    omega
  refine ⟨century, span, year, inSpan - 365 * year, ?_, ?_⟩ <;> omega

/-- The year that `yearOfCycle` finds is one of the cycle, and the day exists
in it.  The last day of the cycle counts in two of the quotients, which cancel. -/
theorem yearOfCycle_spec {day : Int} (hnonneg : 0 ≤ day) (hlt : day < daysPerCycle) :
    0 ≤ yearOfCycle day ∧ yearOfCycle day ≤ 399 ∧
      IsDayOfYear (yearOfCycle day) (day - daysBeforeYear (yearOfCycle day)) := by
  obtain ⟨century, span, year, rest, hday, hcentury, hcentury', hspan, hspan', hyear, hyear',
    hrest, hlast⟩ := exists_split hnonneg hlt
  have hfound : yearOfCycle day = 100 * century + 4 * span + year := by
    unfold yearOfCycle
    have hend : 1461 * span + 365 * year + rest ≤ 36523 ∨
        1461 * span + 365 * year + rest = 36524 ∧ century = 3 := by omega
    have hcenturies : day / 36524 - day / 146096 = century := by
      rcases hend with hend | hend <;> omega
    have hspans : day / 1460 = 25 * century + span
        + if 1460 ≤ 24 * century + span + 365 * year + rest then 1 else 0 := by
      split <;> omega
    split at hspans <;> omega
  have hbefore : daysBeforeYear (yearOfCycle day) = 36524 * century + 1461 * span + 365 * year := by
    rw [hfound]
    unfold daysBeforeYear
    omega
  refine ⟨by omega, by omega, by omega, ?_⟩
  rw [isLeapYear_iff]
  omega

/-! ## Months of a year -/

/-- The days of a year before one of its months.  The years start in March,
which is month 0. -/
def daysBeforeMonth (month : Int) : Int := (153 * month + 2) / 5

/-- The month of a year that a day of the year lies in. -/
def monthOfYear (day : Int) : Int := (5 * day + 2) / 153

/-- The date of a day of a year that starts in March. -/
def Date.ofDayOfYear (year day : Int) : Date :=
  let month := monthOfYear day
  let rest := day - daysBeforeMonth month + 1
  if month < 10 then ⟨year, (month + 3).toNat, rest.toNat⟩
  else ⟨year + 1, (month - 9).toNat, rest.toNat⟩

theorem Date.ofDays_eq_ofDayOfYear (days : Int) :
    Date.ofDays days =
      let cycle := (days + 719468) / daysPerCycle
      let day := days + 719468 - cycle * daysPerCycle
      Date.ofDayOfYear (yearOfCycle day + cycle * 400) (day - daysBeforeYear (yearOfCycle day)) :=
  rfl

theorem monthOfYear_bounds {year day : Int} (hday : IsDayOfYear year day) :
    0 ≤ monthOfYear day ∧ monthOfYear day ≤ 11 := by
  obtain ⟨hnonneg, hlast⟩ := hday
  unfold monthOfYear
  omega

/-- The date of an existing day of a year exists.  The months have lengths of their own,
and only February asks for the year. -/
theorem Date.isValid_ofDayOfYear {year day : Int} (hday : IsDayOfYear year day) :
    (Date.ofDayOfYear year day).isValid = true := by
  obtain ⟨hfrom, hto⟩ := monthOfYear_bounds hday
  obtain ⟨hnonneg, hlast⟩ := hday
  have hmonth : 153 * monthOfYear day ≤ 5 * day + 2 ∧
      5 * day + 2 < 153 * monthOfYear day + 153 := by
    unfold monthOfYear
    omega
  unfold Date.ofDayOfYear
  generalize monthOfYear day = month at hfrom hto hmonth ⊢
  cases hleap : isLeapYear (year + 1) <;>
    simp only [hleap, Bool.false_eq_true, and_false, or_false] at hlast <;>
    interval_cases month <;>
    simp [Date.isValid, daysInMonth, daysBeforeMonth, hleap] <;> omega

/-- The days up to the date of a day of a year.  The date's own year is that
year, or the next one from January on. -/
theorem Date.toDays_ofDayOfYear {year day : Int} (hday : IsDayOfYear year day) :
    (Date.ofDayOfYear year day).toDays =
      year / 400 * daysPerCycle + (daysBeforeYear (year % 400) + day) - 719468 := by
  obtain ⟨hfrom, hto⟩ := monthOfYear_bounds hday
  obtain ⟨hnonneg, hlast⟩ := hday
  have hmonth : daysBeforeMonth (monthOfYear day) ≤ day := by
    unfold daysBeforeMonth monthOfYear
    omega
  unfold Date.ofDayOfYear
  generalize monthOfYear day = month at hfrom hto hmonth ⊢
  have hyear : year - year / 400 * 400 = year % 400 := by omega
  by_cases hmarch : month < 10
  · have hback : (((month + 3).toNat : Int) + 9) % 12 = month := by omega
    have hsame : ¬(month + 3).toNat ≤ 2 := by omega
    simp only [if_pos hmarch, Date.toDays, hback, if_neg hsame, hyear]
    unfold daysBeforeMonth at hmonth ⊢
    unfold daysBeforeYear
    omega
  · have hback : (((month - 9).toNat : Int) + 9) % 12 = month := by omega
    have hnext : (month - 9).toNat ≤ 2 := by omega
    simp only [if_neg hmarch, Date.toDays, hback, if_pos hnext, Int.add_sub_cancel, hyear]
    unfold daysBeforeMonth at hmonth ⊢
    unfold daysBeforeYear
    omega

/-! ## Dates and days -/

/-- The date of a day exists. -/
theorem Date.isValid_ofDays (days : Int) : (Date.ofDays days).isValid = true := by
  have hcycle := dayOfCycle_bounds (days + 719468)
  obtain ⟨-, -, hday⟩ := yearOfCycle_spec hcycle.1 hcycle.2
  rw [Date.ofDays_eq_ofDayOfYear]
  exact Date.isValid_ofDayOfYear (isDayOfYear_add_cycle _ hday)

/-- The date of a day lies that day. -/
theorem Date.toDays_ofDays (days : Int) : (Date.ofDays days).toDays = days := by
  have hcycle := dayOfCycle_bounds (days + 719468)
  obtain ⟨hfrom, hto, hday⟩ := yearOfCycle_spec hcycle.1 hcycle.2
  rw [Date.ofDays_eq_ofDayOfYear]
  dsimp only
  rw [Date.toDays_ofDayOfYear (isDayOfYear_add_cycle _ hday),
    Int.add_mul_ediv_right _ _ (by decide), Int.add_mul_emod_self_right,
    Int.ediv_eq_zero_of_lt hfrom (by omega), Int.emod_eq_of_lt hfrom (by omega), Int.zero_add]
  omega

/-! ## Years in order -/

/-- The first day of a year. -/
def firstDay (year : Int) : Int := (Date.mk year 1 1).toDays

theorem firstDay_eq (year : Int) :
    firstDay year =
      365 * (year - 1) + (year - 1) / 4 - (year - 1) / 100 + (year - 1) / 400 - 719162 := by
  unfold firstDay Date.toDays daysPerCycle
  dsimp only
  rw [if_pos (by omega)]
  omega

theorem firstDay_le {year other : Int} (h : year ≤ other) : firstDay year ≤ firstDay other := by
  rw [firstDay_eq, firstDay_eq]
  omega

theorem Date.month_of_isValid {date : Date} (hvalid : date.isValid = true) :
    1 ≤ date.month ∧ date.month ≤ 12 := by
  simp only [Date.isValid, Bool.and_eq_true, decide_eq_true_eq] at hvalid
  by_contra hmonth
  have hdays : daysInMonth date.year date.month = 0 := by
    unfold daysInMonth
    split <;> omega
  omega

/-- A date lies in its year. -/
theorem Date.toDays_bounds {date : Date} (hvalid : date.isValid = true) :
    firstDay date.year ≤ date.toDays ∧ date.toDays < firstDay (date.year + 1) := by
  obtain ⟨hfrom, hto⟩ := Date.month_of_isValid hvalid
  obtain ⟨year, month, day⟩ := date
  rw [firstDay_eq, firstDay_eq]
  dsimp only at hfrom hto ⊢
  simp only [Date.isValid, Bool.and_eq_true, decide_eq_true_eq] at hvalid
  unfold Date.toDays daysPerCycle
  dsimp only
  have hleap := isLeapYear_iff year
  cases hyear : isLeapYear year <;>
    simp only [hyear, Bool.false_eq_true, false_iff, true_iff] at hleap <;>
    interval_cases month <;>
    simp [daysInMonth, hyear] at hvalid ⊢ <;> omega

end GoldenFixtures.Time
