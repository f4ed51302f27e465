import FeatureFlags.Instant.Basic
import Mathlib.Tactic.IntervalCases

/-!
# Days and dates

Numbering the days and finding the date of a number undo each other: `CivilDate.toDays_ofDays`. What
is found is a day that the calendar has: `CivilDate.isValid_ofDays`.

A day is looked at within its era of 400 years, and an era has `daysBefore year` days before the
year that is so many years into it. The year that the day lies in is told by the days before it and
before the next one (`CivilDate.daysBefore_yearOfDay`); what is left is the day of a year that begins
in March, where only the last month is of varying length.
-/

namespace FeatureFlags

namespace CivilDate

/-! ## Years of an era -/

/-- The days that an era has before one of its years. -/
def daysBefore (year : Int) : Int := 365 * year + year / 4 - year / 100

/-- The year that a day of an era lies in. -/
def yearOfDay (day : Int) : Int := (day - day / 1460 + day / 36524 - day / 146096) / 365

variable {day : Int}

theorem yearOfDay_mem (hlow : 0 ≤ day) (hhigh : day < 146097) :
    0 ≤ yearOfDay day ∧ yearOfDay day < 400 := by
  unfold yearOfDay
  omega

/-- A day lies in its year. The last day of an era lies in the last year of it, which has a leap day
although a century ends with it. -/
theorem daysBefore_yearOfDay (hlow : 0 ≤ day) (hhigh : day < 146097) :
    daysBefore (yearOfDay day) ≤ day ∧
      (day < daysBefore (yearOfDay day + 1) ∨ yearOfDay day = 399 ∧ day = 146096) := by
  obtain ⟨year, hyear⟩ : ∃ year, yearOfDay day = year := ⟨_, rfl⟩
  rw [hyear, daysBefore, daysBefore]
  rw [yearOfDay] at hyear
  -- the centuries one by one: all the divisions at once are too many
  have hcentury : day / 36524 = 0 ∨ day / 36524 = 1 ∨ day / 36524 = 2 ∨ day / 36524 = 3 ∨
      day = 146096 := by omega
  have hbefore : year / 4 ≤ day / 1460 := by omega
  have hbehind : day / 1460 ≤ (year + 1) / 4 := by omega
  rcases hcentury with h | h | h | h | h <;> rw [h] at hyear <;> omega

/-- A year has 366 days only if its last month is the February of a leap year. -/
theorem isLeap_of_last (hlow : 0 ≤ day) (hhigh : day < 146097) (era : Int)
    (hlast : day = daysBefore (yearOfDay day) + 365) :
    isLeap (yearOfDay day + era * 400 + 1) = true := by
  obtain ⟨-, hnext⟩ := daysBefore_yearOfDay hlow hhigh
  generalize yearOfDay day = year at hlast hnext ⊢
  rw [daysBefore] at hlast hnext
  have hmono : year / 100 ≤ (year + 1) / 100 := by omega
  have hfour : (year + 1) % 4 = 0 := by omega
  have hcentury : (year + 1) % 100 ≠ 0 ∨ (year + 1) % 400 = 0 := by omega
  simp only [isLeap, Bool.and_eq_true, Bool.or_eq_true, decide_eq_true_eq]
  omega

/-! ## Months of a year -/

/-- A day of a year that begins in March. -/
def ofDayOfYear (year dayOfYear : Int) : CivilDate :=
  let monthFromMarch := (5 * dayOfYear + 2) / 153
  let day := dayOfYear - (153 * monthFromMarch + 2) / 5 + 1
  let month := if monthFromMarch < 10 then monthFromMarch + 3 else monthFromMarch - 9
  { year := if month ≤ 2 then year + 1 else year, month := month.toNat, day := day.toNat }

theorem ofDays_eq (era : Int) (hlow : 0 ≤ day) (hhigh : day < 146097) :
    ofDays (era * 146097 + day - 719468) =
      ofDayOfYear (yearOfDay day + era * 400) (day - daysBefore (yearOfDay day)) := by
  have hera : (era * 146097 + day - 719468 + 719468) / 146097 = era := by omega
  have hday : era * 146097 + day - 719468 + 719468 - era * 146097 = day := by omega
  rw [ofDays, ofDayOfYear]
  simp only [hera, hday]
  rfl

variable {year dayOfYear : Int}

theorem month_mem (hlow : 0 ≤ dayOfYear) (hhigh : dayOfYear ≤ 365) :
    0 ≤ (5 * dayOfYear + 2) / 153 ∧ (5 * dayOfYear + 2) / 153 < 12 := by
  omega

theorem isValid_ofDayOfYear (hlow : 0 ≤ dayOfYear) (hhigh : dayOfYear ≤ 365)
    (hleap : dayOfYear = 365 → isLeap (year + 1) = true) :
    (ofDayOfYear year dayOfYear).isValid = true := by
  obtain ⟨hfirst, hlast⟩ := month_mem hlow hhigh
  rw [ofDayOfYear]
  generalize hmonth : (5 * dayOfYear + 2) / 153 = month at hfirst hlast
  simp only [isValid, Bool.and_eq_true, decide_eq_true_eq]
  interval_cases month
  case «11» =>
    by_cases hday : dayOfYear = 365
    · simp [daysInMonth, hleap hday, hday]
    · simp only [daysInMonth]
      split <;> simp <;> omega
  all_goals
    simp [daysInMonth]
    omega

theorem toDays_ofDayOfYear (era : Int) (hyear : 0 ≤ year ∧ year < 400) (hlow : 0 ≤ dayOfYear)
    (hhigh : dayOfYear ≤ 365) :
    (ofDayOfYear (year + era * 400) dayOfYear).toDays =
      era * 146097 + (daysBefore year + dayOfYear) - 719468 := by
  obtain ⟨hfirst, hlast⟩ := month_mem hlow hhigh
  rw [ofDayOfYear, daysBefore]
  generalize hmonth : (5 * dayOfYear + 2) / 153 = month at hfirst hlast
  interval_cases month
  all_goals
    simp [toDays]
    omega

/-! ## Numbers of days -/

/-- Every number is that of a day in some era. -/
theorem exists_era (n : Int) :
    ∃ era day : Int, 0 ≤ day ∧ day < 146097 ∧ n = era * 146097 + day - 719468 :=
  ⟨(n + 719468) / 146097, (n + 719468) % 146097, by omega, by omega, by omega⟩

theorem dayOfYear_mem (hlow : 0 ≤ day) (hhigh : day < 146097) :
    0 ≤ day - daysBefore (yearOfDay day) ∧ day - daysBefore (yearOfDay day) ≤ 365 := by
  obtain ⟨hbefore, hnext⟩ := daysBefore_yearOfDay hlow hhigh
  generalize yearOfDay day = year at hbefore hnext ⊢
  rw [daysBefore] at hbefore hnext ⊢
  omega

/-- **The date of a number is the day with that number.** -/
theorem toDays_ofDays (n : Int) : (ofDays n).toDays = n := by
  obtain ⟨era, day, hlow, hhigh, rfl⟩ := exists_era n
  obtain ⟨hfirst, hlast⟩ := dayOfYear_mem hlow hhigh
  rw [ofDays_eq era hlow hhigh, toDays_ofDayOfYear era (yearOfDay_mem hlow hhigh) hfirst hlast]
  omega

/-- **The date of a number is a day of the calendar.** -/
theorem isValid_ofDays (n : Int) : (ofDays n).isValid = true := by
  obtain ⟨era, day, hlow, hhigh, rfl⟩ := exists_era n
  obtain ⟨hfirst, hlast⟩ := dayOfYear_mem hlow hhigh
  rw [ofDays_eq era hlow hhigh]
  exact isValid_ofDayOfYear hfirst hlast fun h => isLeap_of_last hlow hhigh era (by omega)

end CivilDate

end FeatureFlags
