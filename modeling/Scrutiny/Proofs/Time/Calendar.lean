import Mathlib.Tactic.Common
import Scrutiny.Time.Date

/-!
Days and their numbers.  Every number is that of a day that exists.
-/

namespace Scrutiny.Date

/-! ## 1. Four hundred years -/

/-- The year of a day in an era of four hundred years, counted from March on. -/
def yearOfEra (day : Int) : Int :=
  (day - day / 1460 + day / 36524 - day / 146096) / 365

/-- The day before the first of March of a year in an era. -/
def yearStart (year : Int) : Int :=
  365 * year + year / 4 - year / 100

/-- A day of an era lies within its year.  The year has a day more before a leap year's end. -/
theorem yearOfEra_spec {day : Int} (h : 0 ≤ day) (hday : day < 146097) :
    0 ≤ yearOfEra day ∧ yearOfEra day ≤ 399 ∧ yearStart (yearOfEra day) ≤ day ∧
      day ≤ yearStart (yearOfEra day) + 365 ∧
      (day = yearStart (yearOfEra day) + 365 → (yearOfEra day + 1) % 4 = 0 ∧
        ((yearOfEra day + 1) % 100 ≠ 0 ∨ yearOfEra day = 399)) := by
  by_cases hlast : day = 146096
  · subst hlast
    decide
  · -- centuries, groups of four years, and the day in its group
    obtain ⟨c, k, e, hc, hk, he, hday, hgroup⟩ : ∃ c k e : Int, (0 ≤ c ∧ c ≤ 3) ∧
        (0 ≤ k ∧ k ≤ 24) ∧ (0 ≤ e ∧ e ≤ 1460) ∧ day = 36524 * c + 1461 * k + e ∧
        (k = 24 → e ≤ 1459) :=
      ⟨day / 36524, day % 36524 / 1461, day % 36524 % 1461, by omega, by omega, by omega, by omega,
        by omega⟩
    have hyear : yearOfEra day = (day - day / 1460 + c) / 365 := by
      rw [yearOfEra, show day / 36524 = c by omega, show day / 146096 = 0 by omega, Int.sub_zero]
    obtain ⟨j, hj, hy⟩ : ∃ j, (0 ≤ j ∧ j ≤ 3) ∧ yearOfEra day = 100 * c + 4 * k + j :=
      ⟨yearOfEra day - 100 * c - 4 * k, by omega, by omega⟩
    have hstart : yearStart (yearOfEra day) = 36524 * c + 1461 * k + 365 * j := by
      have hfour : yearOfEra day / 4 = 25 * c + k := by omega
      have hhundred : yearOfEra day / 100 = c := by omega
      rw [yearStart, hfour, hhundred, hy]
      omega
    have hin : 0 ≤ e - 365 * j ∧ e - 365 * j ≤ 365 ∧ (e - 365 * j = 365 → j = 3) := by
      omega
    omega

/-! ## 2. Days of all years -/

/-- The days of a year before a month, both counted from March on. -/
def monthStart (month : Nat) : Int :=
  (153 * month + 2) / 5

/-- Where the day with a given number lies: its era, its year and month in it, both counted from
March on, and its day of the month. -/
structure LiesAt (number era year : Int) (month day : Nat) : Prop where
  year_bounds : 0 ≤ year ∧ year ≤ 399
  month_le : month ≤ 11
  day_pos : 1 ≤ day
  number_eq : number + 719468 = 146097 * era + yearStart year + monthStart month + day - 1
  in_month : 5 * (monthStart month + day - 1) + 2 < 153 * (month + 1)
  in_year : monthStart month + day - 1 ≤ 365
  last_day : monthStart month + day - 1 = 365 → (year + 1) % 4 = 0 ∧
    ((year + 1) % 100 ≠ 0 ∨ year = 399)

-- The date with a given number from the day in its year.
theorem ofDayNumber_eq_ite {number era inEra year inYear month : Int}
    (hera : (number + 719468) / 146097 = era) (hinEra : (number + 719468) % 146097 = inEra)
    (hyear : yearOfEra inEra = year) (hinYear : inEra - yearStart year = inYear)
    (hmonth : (5 * inYear + 2) / 153 = month) :
    ofDayNumber number =
      if month < 10 then
        ⟨year + 400 * era + if month + 3 ≤ 2 then 1 else 0, (month + 3).toNat,
          (inYear - (153 * month + 2) / 5 + 1).toNat⟩
      else
        ⟨year + 400 * era + if month - 9 ≤ 2 then 1 else 0, (month - 9).toNat,
          (inYear - (153 * month + 2) / 5 + 1).toNat⟩ := by
  subst hera hinEra hyear hinYear hmonth
  rw [ofDayNumber, ← yearOfEra, ← yearStart]
  split <;> rfl

theorem ofDayNumber_eq (number : Int) : ∃ (era year : Int) (month day : Nat),
    LiesAt number era year month day ∧
      ofDayNumber number =
        if month < 10 then ⟨year + 400 * era, month + 3, day⟩
        else ⟨year + 400 * era + 1, month - 9, day⟩ := by
  have hera : 0 ≤ (number + 719468) % 146097 ∧ (number + 719468) % 146097 < 146097 := by omega
  obtain ⟨hlow, hhigh, hstart, hend, hlast⟩ := yearOfEra_spec hera.1 hera.2
  have hdate := @ofDayNumber_eq_ite number _ _ _ _ _ rfl rfl rfl rfl rfl
  generalize hinEra : (number + 719468) % 146097 = inEra at *
  generalize yearOfEra inEra = year at *
  generalize hinYear : inEra - yearStart year = inYear at *
  obtain ⟨month, hmonth⟩ : ∃ month : Nat, (5 * inYear + 2) / 153 = month :=
    ⟨((5 * inYear + 2) / 153).toNat, by omega⟩
  obtain ⟨day, hday⟩ : ∃ day : Nat, inYear - monthStart month + 1 = day :=
    ⟨(inYear - monthStart month + 1).toNat, by unfold monthStart; omega⟩
  refine ⟨(number + 719468) / 146097, year, month, day, ⟨⟨hlow, hhigh⟩, ?_, ?_, ?_, ?_, ?_, ?_⟩, ?_⟩
  · omega
  · unfold monthStart at hday
    omega
  · omega
  · omega
  · omega
  · intro hfull
    exact hlast (by omega)
  · rw [monthStart] at hday
    rw [hdate, hmonth, hday]
    by_cases hmarch : month < 10
    · rw [if_pos (by omega), if_pos hmarch, if_neg (by omega)]
      simp
      omega
    · rw [if_neg (by omega), if_neg hmarch, if_pos (by omega)]
      simp
      omega

theorem dayNumber_ofDayNumber (number : Int) : (ofDayNumber number).dayNumber = number := by
  obtain ⟨era, year, month, day, hlies, heq⟩ := ofDayNumber_eq number
  have hnumber := hlies.number_eq
  have hmonth := hlies.month_le
  have hyear := hlies.year_bounds
  rw [yearStart, monthStart] at hnumber
  rw [heq, dayNumber, marchDays]
  by_cases hmarch : month < 10
  · rw [if_pos hmarch]
    dsimp only
    rw [if_neg (by omega), show (month + 3 + 9) % 12 = month by omega]
    omega
  · rw [if_neg hmarch]
    dsimp only
    rw [if_pos (by omega), show (month - 9 + 9) % 12 = month by omega]
    omega

/-- The day with a given number exists. -/
theorem isValid_ofDayNumber (number : Int) : (ofDayNumber number).isValid = true := by
  obtain ⟨era, year, month, day, hlies, heq⟩ := ofDayNumber_eq number
  have hmonth := hlies.month_le
  have hin := hlies.in_month
  have hday := hlies.day_pos
  have hfull := hlies.in_year
  have hlast := hlies.last_day
  have hyear := hlies.year_bounds
  unfold monthStart at hin hfull hlast
  rw [heq]
  by_cases hmarch : month < 10
  · rw [if_pos hmarch]
    simp only [isValid, daysInMonth, Bool.and_eq_true, decide_eq_true_eq, beq_iff_eq,
      Bool.or_eq_true]
    rw [if_neg (by omega)]
    split <;> omega
  · -- January and February end the year, and the day too many is a leap year's
    rw [if_neg hmarch]
    simp only [isValid, daysInMonth, isLeap, Bool.and_eq_true, decide_eq_true_eq, beq_iff_eq,
      Bool.or_eq_true, bne_iff_ne]
    split
    · split <;> omega
    · split <;> omega

end Scrutiny.Date
