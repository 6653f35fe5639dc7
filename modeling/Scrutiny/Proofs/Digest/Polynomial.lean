import Mathlib.Algebra.BigOperators.Fin
import Mathlib.Tactic.Ring
import Scrutiny.Digest.Fingerprint

/-!
The hash of a text as a number.  Words that wrap hold residues modulo `2 ^ 32`, so that the steps of
the hash, which wrap at every turn, come to the exact polynomial in the units of the text, and two
texts behind each other to what their hashes come to.
-/

namespace Scrutiny.Fingerprint

/-! ## 1. One step -/

theorem shiftLeft_five (hash : Int32) : hash <<< 5 = hash * 32 := by
  have hshift : (5 : Int32).toBitVec.smod 32 = 5#32 := by decide
  have hpower : BitVec.twoPow 32 5 = (32 : Int32).toBitVec := by decide
  rw [← Int32.toBitVec_inj, Int32.toBitVec_shiftLeft, Int32.toBitVec_mul, hshift,
    BitVec.shiftLeft_eq', ← hpower]
  exact BitVec.shiftLeft_eq_mul_twoPow hash.toBitVec 5

/-- What a step makes of a residue is the residue of what it makes of the number. -/
theorem absorb_ofInt (value : Int) (unit : Nat) :
    absorb (Int32.ofInt value) unit = Int32.ofInt (value * 31 + unit) := by
  have hunit : Int32.ofNat unit = Int32.ofInt unit := Int32.ofInt_eq_ofNat.symm
  have hshift : Int32.ofInt value <<< 5 = Int32.ofInt (value * 32) := by
    rw [shiftLeft_five, Int32.ofInt_mul]
    rfl
  have hvalue : value * 32 - value + unit = value * 31 + unit := by ring
  rw [absorb, hunit, hshift, ← Int32.ofInt_sub, ← Int32.ofInt_add, hvalue]

/-! ## 2. All steps -/

/-- The UTF-16 units of a text. -/
def units (text : String) : List Nat :=
  text.toList.flatMap utf16Units

theorem units_append (front back : String) : units (front ++ back) = units front ++ units back := by
  rw [units, String.toList_append, List.flatMap_append]
  rfl

/-- The polynomial at 31 that has the units as its coefficients, the last of them at the power
zero. -/
def polynomial (units : List Nat) : Int :=
  ∑ i : Fin units.length, (units[i] : Int) * 31 ^ (units.length - 1 - i)

theorem polynomial_cons (unit : Nat) (units : List Nat) :
    polynomial (unit :: units) = unit * 31 ^ units.length + polynomial units := by
  have htail (i : Fin units.length) : ((unit :: units)[i.succ] : Int) *
      31 ^ (units.length + 1 - 1 - i.succ) = units[i] * 31 ^ (units.length - 1 - i) := by
    have hpower : units.length + 1 - 1 - (i.succ : Nat) = units.length - 1 - i := by
      rw [Fin.val_succ]
      omega
    rw [hpower]
    rfl
  calc polynomial (unit :: units)
      = unit * 31 ^ units.length + ∑ i : Fin units.length, ((unit :: units)[i.succ] : Int) *
          31 ^ (units.length + 1 - 1 - i.succ) := Fin.sum_univ_succ _
    _ = unit * 31 ^ units.length + polynomial units := by
        rw [Finset.sum_congr rfl fun i _ => htail i, polynomial]

/-- Units that are taken in behind a number move it up by as many powers. -/
theorem foldl_absorb (value : Int) (units : List Nat) :
    units.foldl absorb (Int32.ofInt value) =
      Int32.ofInt (value * 31 ^ units.length + polynomial units) := by
  induction units generalizing value with
  | nil => simp [polynomial]
  | cons unit units ih =>
    rw [List.foldl_cons, absorb_ofInt, ih, polynomial_cons, List.length_cons]
    congr 1
    ring

theorem ofText_eq (text : String) : ofText text = (units text).foldl absorb 0 := rfl

theorem toInt_ofText (text : String) :
    (ofText text).toInt = (polynomial (units text)).bmod (2 ^ 32) := by
  have hfold : ofText text = Int32.ofInt (0 * 31 ^ (units text).length + polynomial (units text)) :=
    foldl_absorb 0 (units text)
  rw [hfold, zero_mul, zero_add]
  exact Int32.toInt_ofInt

/-- The hash of a text is the polynomial in its units, and the hash of two texts behind each other
the first hash moved up behind the second, each as the signed word that it is congruent to modulo
`2 ^ 32`. -/
theorem ofText_polynomial (text : String) :
    (ofText text).toInt = (polynomial (units text)).bmod (2 ^ 32) ∧
      ∀ more : String, (ofText (text ++ more)).toInt =
        ((ofText text).toInt * 31 ^ (units more).length + (ofText more).toInt).bmod (2 ^ 32) := by
  refine ⟨toInt_ofText text, fun more => ?_⟩
  have hfold : ofText (text ++ more) = Int32.ofInt
      ((ofText text).toInt * 31 ^ (units more).length + polynomial (units more)) := by
    rw [ofText_eq, units_append, List.foldl_append, ← ofText_eq, ← foldl_absorb, Int32.ofInt_toInt]
  have hvalue : (ofText (text ++ more)).toInt =
      ((ofText text).toInt * 31 ^ (units more).length + polynomial (units more)).bmod (2 ^ 32) := by
    rw [hfold]
    exact Int32.toInt_ofInt
  rw [hvalue, toInt_ofText more, Int.add_bmod_bmod]

example : units "😀" = [0xD83D, 0xDE00] ∧ (ofText "😀").toInt = 0xD83D * 31 + 0xDE00 := by decide

end Scrutiny.Fingerprint
