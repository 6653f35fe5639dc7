import Mathlib.Tactic.Common
import Scrutiny.Text.CharClass

/-!
Blanks are no characters of words, neither of running text nor of code.
-/

namespace Scrutiny.Text

/-- The codes of all blanks. -/
def blankCodes : List Nat :=
  List.range' 9 5 ++ [0x20, 0x85, 0xA0, 0x1680] ++ List.range' 0x2000 11 ++
    [0x2028, 0x2029, 0x202F, 0x205F, 0x3000]

theorem toNat_mem_blankCodes {c : Char} (h : isBlank c = true) : c.toNat ∈ blankCodes := by
  simp only [isBlank, Bool.or_eq_true, Bool.and_eq_true, decide_eq_true_eq, beq_iff_eq] at h
  simp only [blankCodes, List.mem_append, List.mem_range'_1, List.mem_cons, List.not_mem_nil]
  omega

theorem forall_of_isBlank {P : Char → Prop} (h : ∀ code ∈ blankCodes, P (Char.ofNat code))
    (c : Char) (hc : isBlank c = true) : P c := by
  have hcode := h c.toNat (toNat_mem_blankCodes hc)
  rwa [Char.ofNat_toNat] at hcode

-- Above 127 the classes are tables, so each blank is looked up.
theorem isIdentChar_of_isBlank {c : Char} (h : isBlank c = true) : isIdentChar c = false := by
  apply forall_of_isBlank _ c h
  decide +kernel

theorem isWordChar_of_isBlank {c : Char} (h : isBlank c = true) : isWordChar c = false := by
  apply forall_of_isBlank _ c h
  decide +kernel

theorem isBlank_of_isIdentChar {c : Char} (h : isIdentChar c = true) : isBlank c = false := by
  cases hblank : isBlank c with
  | false => rfl
  | true => rw [isIdentChar_of_isBlank hblank] at h; exact absurd h Bool.false_ne_true

theorem isIdentChar_of_isIdentStart {c : Char} (h : isIdentStart c = true) :
    isIdentChar c = true := by
  rw [isIdentStart, Bool.or_eq_true, Bool.or_eq_true] at h
  rw [isIdentChar, isAlphanumeric]
  rcases h with (h | h) | h <;> simp [h]

theorem ne_nil_of_isIdentifier {text : List Char} (h : isIdentifier text = true) : text ≠ [] := by
  rintro rfl
  exact absurd h Bool.false_ne_true

theorem all_isIdentChar_of_isIdentifier {text : List Char} (h : isIdentifier text = true) :
    text.all isIdentChar = true := by
  cases text with
  | nil => rfl
  | cons c text =>
    rw [isIdentifier, Bool.and_eq_true] at h
    rw [List.all_cons, isIdentChar_of_isIdentStart h.1, h.2]
    rfl

end Scrutiny.Text
