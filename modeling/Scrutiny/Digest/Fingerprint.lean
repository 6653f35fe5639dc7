import Scrutiny.Text.Lines

/-!
Fingerprints of code windows: a polynomial hash of the text's UTF-16 units modulo `2 ^ 32`, and
the base-36 numeral that it is shown as.
-/

namespace Scrutiny

def utf16Units (c : Char) : List Nat :=
  let n := c.toNat
  if n < 0x10000 then [n]
  else [0xD800 + (n - 0x10000) / 0x400, 0xDC00 + (n - 0x10000) % 0x400]

namespace Fingerprint

/-- Horner's rule with base 31, in wrapping 32-bit words.  The hash is multiplied by a shift and a
subtraction. -/
def absorb (hash : Int32) (unit : Nat) : Int32 :=
  (hash <<< 5) - hash + Int32.ofNat unit

def ofChars (text : List Char) : Int32 :=
  (text.flatMap utf16Units).foldl absorb 0

def ofText (text : String) : Int32 :=
  ofChars text.toList

/-! ## Numerals -/

def digit (n : Nat) : Char :=
  if n < 10 then Char.ofNat (48 + n) else Char.ofNat (87 + n)

/-- The base-36 digits of a number, most significant first, none for zero. -/
def digits (n : Nat) : List Char :=
  if n = 0 then [] else digits (n / 36) ++ [digit (n % 36)]
termination_by n
decreasing_by omega

def magnitude (n : Nat) : List Char :=
  if n = 0 then ['0'] else digits n

def numeral (hash : Int32) : String :=
  let value := hash.toInt
  String.ofList (if value < 0 then '-' :: magnitude value.natAbs else magnitude value.natAbs)

end Fingerprint

end Scrutiny
