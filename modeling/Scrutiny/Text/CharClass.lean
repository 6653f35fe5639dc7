import Scrutiny.Text.CharRanges

/-!
Character classes of Unicode text.  Every class is total on `Char`; below 128 it is given by a
short rule, above by the sorted ranges of `Scrutiny.Text.CharRanges`.
-/

namespace Scrutiny.Text

def inRangesBetween (ranges : Array (Nat × Nat)) (n lo hi : Nat) : Bool :=
  if lo < hi then
    let mid := (lo + hi) / 2
    match ranges[mid]? with
    | none => false
    | some (first, last) =>
        if n < first then inRangesBetween ranges n lo mid
        else if last < n then inRangesBetween ranges n (mid + 1) hi
        else true
  else false
termination_by hi - lo
decreasing_by all_goals omega

def inRanges (ranges : Array (Nat × Nat)) (n : Nat) : Bool :=
  inRangesBetween ranges n 0 ranges.size

def isAsciiLetter (c : Char) : Bool :=
  ('a' ≤ c && c ≤ 'z') || ('A' ≤ c && c ≤ 'Z')

def isAsciiDigit (c : Char) : Bool :=
  '0' ≤ c && c ≤ '9'

def isAsciiAlphanumeric (c : Char) : Bool :=
  isAsciiLetter c || isAsciiDigit c

def isBlank (c : Char) : Bool :=
  let n := c.toNat
  (9 ≤ n && n ≤ 13) || n == 0x20 || n == 0x85 || n == 0xA0 || n == 0x1680 ||
    (0x2000 ≤ n && n ≤ 0x200A) || n == 0x2028 || n == 0x2029 || n == 0x202F || n == 0x205F ||
    n == 0x3000

def isAlphabetic (c : Char) : Bool :=
  if c.toNat < 128 then isAsciiLetter c else inRanges CharRanges.alphabetic c.toNat

/-- Decimal digits, letter numbers and other numbers of every script. -/
def isNumeric (c : Char) : Bool :=
  if c.toNat < 128 then isAsciiDigit c else inRanges CharRanges.numeric c.toNat

def isAlphanumeric (c : Char) : Bool :=
  isAlphabetic c || isNumeric c

/-- The characters of words in running text: alphabetic characters but the most recent, marks,
decimal digits, connector punctuation such as the underscore, and join controls. -/
def isWordChar (c : Char) : Bool :=
  if c.toNat < 128 then isAsciiAlphanumeric c || c == '_'
  else
    inRanges CharRanges.wordOnly c.toNat ||
      (inRanges CharRanges.alphabetic c.toNat && !inRanges CharRanges.recentAlphabetic c.toNat)

def isIdentChar (c : Char) : Bool :=
  isAlphanumeric c || c == '_' || c == '$'

def isIdentStart (c : Char) : Bool :=
  isAlphabetic c || c == '_' || c == '$'

def isIdentifier : List Char → Bool
  | [] => false
  | c :: rest => isIdentStart c && rest.all isIdentChar

def lowerAscii (c : Char) : Char :=
  if 'A' ≤ c && c ≤ 'Z' then Char.ofNat (c.toNat + 32) else c

def upperAscii (c : Char) : Char :=
  if 'a' ≤ c && c ≤ 'z' then Char.ofNat (c.toNat - 32) else c

/-- The representative under simple case folding of the characters that fold to an ASCII one:
besides the capital letters these are the long s and the Kelvin sign. -/
def foldCase (c : Char) : Char :=
  if c == 'ſ' then 's' else if c == '\u212A' then 'k' else lowerAscii c

end Scrutiny.Text
