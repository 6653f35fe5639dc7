import Scrutiny.Digest.Fingerprint

/-!
Numerals to the base 36 and how they are read.  The numeral of a hash reads as the hash, so that no
two hashes have the same one.
-/

namespace Scrutiny.Fingerprint

/-! ## 1. Reading -/

/-- The digits, each at the place of its value. -/
def digitChars : List Char :=
  "0123456789abcdefghijklmnopqrstuvwxyz".toList

def digitValue? (c : Char) : Option Nat :=
  digitChars.idxOf? c

/-- The number that digits behind those of `front` make of it. -/
def valueBehind? (front : Nat) (digits : List Char) : Option Nat :=
  digits.foldlM (fun value c => (digitValue? c).map fun digit => value * 36 + digit) front

/-- The number that a row of digits stands for; there is at least one. -/
def magnitude? (digits : List Char) : Option Nat :=
  if digits = [] then none else valueBehind? 0 digits

/-- The number that a numeral stands for, which may have a minus sign in front. -/
def value? : List Char → Option Int
  | '-' :: digits => (magnitude? digits).map fun value : Nat => -(value : Int)
  | digits => (magnitude? digits).map fun value : Nat => (value : Int)

/-- The text reads as the number, has a minus sign if the number is negative and nothing but digits
otherwise, and the first of them is a zero only if there is no other one. -/
structure IsNumeral (value : Int) (text : List Char) : Prop where
  reads : value? text = some value
  written : ∃ digits, text = (if value < 0 then ['-'] else []) ++ digits ∧
    (∀ c ∈ digits, c ∈ digitChars) ∧ (digits.head? = some '0' → value = 0 ∧ digits = ['0'])

/-! ## 2. Digits -/

theorem digitValue?_digit {n : Nat} (h : n < 36) : digitValue? (digit n) = some n := by
  have hall : ∀ n < 36, digitValue? (digit n) = some n := by decide
  exact hall n h

theorem digit_mem_digitChars {n : Nat} (h : n < 36) : digit n ∈ digitChars := by
  have hall : ∀ n < 36, digit n ∈ digitChars := by decide
  exact hall n h

theorem digit_ne_zero {n : Nat} (h : n < 36) (hn : n ≠ 0) : digit n ≠ '0' := by
  intro hzero
  have hvalue := digitValue?_digit h
  rw [hzero] at hvalue
  exact hn (Option.some.inj hvalue).symm

theorem digits_of_ne_zero {n : Nat} (h : n ≠ 0) :
    digits n = digits (n / 36) ++ [digit (n % 36)] := by
  rw [digits, if_neg h]

theorem digits_ne_nil {n : Nat} (h : n ≠ 0) : digits n ≠ [] := by
  rw [digits_of_ne_zero h]
  simp

theorem valueBehind?_digits (n : Nat) : valueBehind? 0 (digits n) = some n := by
  induction n using digits.induct with
  | case1 =>
    rw [digits]
    rfl
  | case2 n h ih =>
    have hdigit := digitValue?_digit (Nat.mod_lt n (by decide : 0 < 36))
    have hlast : valueBehind? (n / 36) [digit (n % 36)] = some (n / 36 * 36 + n % 36) := by
      simp [valueBehind?, hdigit]
    rw [digits_of_ne_zero h, valueBehind?, List.foldlM_append]
    show (valueBehind? 0 (digits (n / 36))).bind (valueBehind? · [digit (n % 36)]) = some n
    rw [ih, Option.bind_some, hlast, Nat.div_add_mod']

theorem mem_digits {n : Nat} : ∀ c ∈ digits n, c ∈ digitChars := by
  induction n using digits.induct with
  | case1 =>
    rw [digits]
    simp
  | case2 n h ih =>
    intro c hc
    rw [digits_of_ne_zero h, List.mem_append, List.mem_singleton] at hc
    rcases hc with hc | rfl
    · exact ih c hc
    · exact digit_mem_digitChars (Nat.mod_lt n (by decide))

-- The first digit is that of a number below 36, which is not zero.
theorem head?_digits_ne_zero (n : Nat) : (digits n).head? ≠ some '0' := by
  induction n using digits.induct with
  | case1 =>
    rw [digits]
    simp
  | case2 n h ih =>
    rw [digits_of_ne_zero h, List.head?_append]
    by_cases hfront : n / 36 = 0
    · have hlow : n % 36 ≠ 0 := by omega
      rw [hfront, digits, if_pos rfl]
      show some (digit (n % 36)) ≠ some '0'
      exact fun heq => digit_ne_zero (Nat.mod_lt n (by decide)) hlow (Option.some.inj heq)
    · obtain ⟨c, rest, hcons⟩ := List.exists_cons_of_ne_nil (digits_ne_nil hfront)
      rw [hcons] at ih ⊢
      exact ih

/-! ## 3. Numerals -/

theorem magnitude?_magnitude (n : Nat) : magnitude? (magnitude n) = some n := by
  rw [magnitude]
  by_cases h : n = 0
  · rw [if_pos h, h]
    rfl
  · rw [if_neg h, magnitude?, if_neg (digits_ne_nil h), valueBehind?_digits]

theorem mem_magnitude {n : Nat} : ∀ c ∈ magnitude n, c ∈ digitChars := by
  rw [magnitude]
  by_cases h : n = 0
  · rw [if_pos h]
    intro c hc
    rw [List.mem_singleton.mp hc]
    decide
  · rw [if_neg h]
    exact mem_digits

theorem eq_zero_of_head?_magnitude {n : Nat} (h : (magnitude n).head? = some '0') :
    n = 0 ∧ magnitude n = ['0'] := by
  rw [magnitude] at h ⊢
  by_cases hn : n = 0
  · exact ⟨hn, if_pos hn⟩
  · rw [if_neg hn] at h
    exact absurd h (head?_digits_ne_zero n)

theorem value?_minus (digits : List Char) :
    value? ('-' :: digits) = (magnitude? digits).map fun value : Nat => -(value : Int) := rfl

theorem value?_of_mem {digits : List Char} (h : ∀ c ∈ digits, c ∈ digitChars) :
    value? digits = (magnitude? digits).map fun value : Nat => (value : Int) := by
  unfold value?
  split
  next rest => exact absurd (h '-' List.mem_cons_self) (by decide)
  next => rfl

theorem toList_numeral (hash : Int32) :
    (numeral hash).toList =
      (if hash.toInt < 0 then ['-'] else []) ++ magnitude hash.toInt.natAbs := by
  rw [numeral, String.toList_ofList]
  split <;> rfl

/-- The numeral of a hash is one of its value as a signed number. -/
theorem isNumeral_numeral (hash : Int32) : IsNumeral hash.toInt (numeral hash).toList := by
  refine ⟨?_, magnitude hash.toInt.natAbs, toList_numeral hash, mem_magnitude, fun hzero => ?_⟩
  · rw [toList_numeral]
    by_cases hnegative : hash.toInt < 0
    · rw [if_pos hnegative]
      show value? ('-' :: magnitude hash.toInt.natAbs) = some hash.toInt
      rw [value?_minus, magnitude?_magnitude, Option.map_some]
      congr 1
      omega
    · rw [if_neg hnegative, List.nil_append, value?_of_mem mem_magnitude, magnitude?_magnitude,
        Option.map_some]
      congr 1
      omega
  · obtain ⟨hmagnitude, hdigits⟩ := eq_zero_of_head?_magnitude hzero
    exact ⟨Int.natAbs_eq_zero.mp hmagnitude, hdigits⟩

theorem numeral_inj {a b : Int32} : numeral a = numeral b ↔ a = b := by
  constructor
  · intro h
    have ha := (isNumeral_numeral a).reads
    rw [h, (isNumeral_numeral b).reads] at ha
    exact (Int32.toInt_inj.mp (Option.some.inj ha)).symm
  · rintro rfl
    rfl

example : numeral (-2147483648) = "-zik0zk" := by decide +kernel

end Scrutiny.Fingerprint
