import Mathlib.Algebra.Group.Nat.Defs
import Mathlib.Tactic.Common
import Scrutiny.Time.Date

/-!
Numerals of fixed width, and days read back from theirs.
-/

namespace Scrutiny.Date

/-! ## 1. Numerals -/

theorem digitsValue_eq_ofDigitChars (digits : List Char) :
    digitsValue digits = Nat.ofDigitChars 10 digits 0 := rfl

-- Zeros in front do not change the number.
theorem digitsValue_padded (width n : Nat) : digitsValue (padded width n) = n := by
  rw [digitsValue_eq_ofDigitChars, padded, Nat.ofDigitChars_append,
    Nat.ofDigitChars_replicate_zero, Nat.mul_zero, Nat.ofDigitChars_ten_toDigits]

theorem all_isAsciiDigit_padded (width n : Nat) :
    (padded width n).all Text.isAsciiDigit = true := by
  rw [List.all_eq_true]
  intro c hc
  rcases List.mem_append.mp hc with hzero | hdigit
  · rw [List.eq_of_mem_replicate hzero]
    rfl
  · exact Nat.isDigit_of_mem_toDigits (by decide) (by decide) hdigit

theorem padded_ne_nil (width n : Nat) : padded width n ≠ [] := by
  simp [padded]

theorem length_padded {width n : Nat} (hwidth : 0 < width) (hn : n < 10 ^ width) :
    (padded width n).length = width := by
  have hle : (Nat.toDigits 10 n).length ≤ width :=
    (Nat.length_toDigits_le_iff (by decide) hwidth).mpr hn
  rw [padded, List.length_append, List.length_replicate]
  omega

/-! ## 2. Days -/

theorem isValid_bounds {date : Date} (h : date.isValid = true) :
    1 ≤ date.month ∧ date.month ≤ 12 ∧ 1 ≤ date.day ∧ date.day ≤ 31 := by
  have hmonth : daysInMonth date.year date.month ≤ 31 := by
    unfold daysInMonth
    split
    · split <;> omega
    · split <;> omega
  simp only [isValid, Bool.and_eq_true, decide_eq_true_eq] at h
  omega

theorem length_padded_month {date : Date} (h : date.isValid = true) :
    (padded 2 date.month).length = 2 :=
  length_padded (by decide) (by have := isValid_bounds h; omega)

theorem length_padded_day {date : Date} (h : date.isValid = true) :
    (padded 2 date.day).length = 2 :=
  length_padded (by decide) (by have := isValid_bounds h; omega)

/-- A day of the years with four digits is read back from its digits. -/
theorem ofDigits?_padded {date : Date} (hvalid : date.isValid = true) (hyear : 0 ≤ date.year) :
    ofDigits? (padded 4 date.year.toNat) (padded 2 date.month) (padded 2 date.day) =
      some date := by
  have hdate : (⟨(date.year.toNat : Int), date.month, date.day⟩ : Date) = date := by
    rw [Int.toNat_of_nonneg hyear]
  have hall : (padded 4 date.year.toNat ++ padded 2 date.month ++ padded 2 date.day).all
      Text.isAsciiDigit = true := by
    rw [List.all_append, List.all_append, all_isAsciiDigit_padded, all_isAsciiDigit_padded,
      all_isAsciiDigit_padded]
    rfl
  rw [ofDigits?, if_pos hall, digitsValue_padded, digitsValue_padded, digitsValue_padded, hdate]
  exact if_pos hvalid

end Scrutiny.Date
