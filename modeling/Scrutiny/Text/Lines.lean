import Scrutiny.Text.CharClass

/-!
Lines, blanks and substrings.  The functions on `List Char` are the ones that proofs speak
about; those on `String` wrap them.
-/

namespace Scrutiny.Text

/-! ## Lines -/

def consLine (c : Char) : List (List Char) → List (List Char)
  | [] => [[c]]
  | line :: lines => (c :: line) :: lines

/-- The lines of a text without their terminators.  A line ends at a newline, with or without
one carriage return before it; a last line needs no terminator, and then keeps a carriage
return. -/
def lines : List Char → List (List Char)
  | [] => []
  | '\n' :: rest => [] :: lines rest
  | '\r' :: '\n' :: rest => [] :: lines rest
  | c :: rest => consLine c (lines rest)

def numbered {α : Type} (items : List α) : List (Nat × α) :=
  items.zipIdx.map fun (item, index) => (index + 1, item)

/-! ## Blanks -/

def trimStart (text : List Char) : List Char :=
  text.dropWhile isBlank

def trimEnd (text : List Char) : List Char :=
  (text.reverse.dropWhile isBlank).reverse

def trim (text : List Char) : List Char :=
  trimEnd (trimStart text)

def isBlankText (text : List Char) : Bool :=
  text.all isBlank

/-! ## Substrings -/

def occursIn (part : List Char) : List Char → Bool
  | [] => part.isEmpty
  | c :: rest => part.isPrefixOf (c :: rest) || occursIn part rest

/-- The pieces between the separators; one more than there are separators. -/
def splitOn (separator : Char) : List Char → List (List Char)
  | [] => [[]]
  | c :: rest =>
      if c == separator then [] :: splitOn separator rest
      else consLine c (splitOn separator rest)

def dropPrefix? (start : List Char) (text : List Char) : Option (List Char) :=
  if start.isPrefixOf text then some (text.drop start.length) else none

def afterLast? (separator : List Char) : List Char → Option (List Char)
  | [] => if separator.isEmpty then some [] else none
  | c :: rest =>
      match afterLast? separator rest with
      | some tail => some tail
      | none => dropPrefix? separator (c :: rest)

def oneLine (text : List Char) : List Char :=
  text.map fun c => if c == '\n' || c == '\r' then ' ' else c

end Scrutiny.Text

namespace Scrutiny

def mapChars (f : List Char → List Char) (text : String) : String :=
  String.ofList (f text.toList)

def joinWith (separator : String) (texts : List String) : String :=
  separator.intercalate texts

end Scrutiny
