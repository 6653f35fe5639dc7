import Scrutiny.Json.Value

/-!
Reading JSON text.  `Json.parse?` accepts exactly the texts of the JSON grammar, and knows no
limit on nesting.  The reader takes a bound on its recursion that the text's length provides.
-/

namespace Scrutiny.Json

/-! ## Scalars -/

def isSpace (c : Char) : Bool :=
  c == ' ' || c == '\n' || c == '\t' || c == '\r'

def skipSpace (text : List Char) : List Char :=
  text.dropWhile isSpace

def hexValue? (c : Char) : Option Nat :=
  if '0' ≤ c && c ≤ '9' then some (c.toNat - 48)
  else if 'a' ≤ c && c ≤ 'f' then some (c.toNat - 87)
  else if 'A' ≤ c && c ≤ 'F' then some (c.toNat - 55)
  else none

def unit? (a b c d : Char) : Option Nat := do
  let a ← hexValue? a
  let b ← hexValue? b
  let c ← hexValue? c
  let d ← hexValue? d
  pure (((a * 16 + b) * 16 + c) * 16 + d)

def escaped? : Char → Option Char
  | '"' => some '"'
  | '\\' => some '\\'
  | '/' => some '/'
  | 'b' => some '\x08'
  | 'f' => some '\x0c'
  | 'n' => some '\n'
  | 'r' => some '\r'
  | 't' => some '\t'
  | _ => none

/-- The code points of a string literal up to its closing quote, and what follows it.  An
escape by number gives one unit, so that halves of pairs stay visible. -/
def units? : List Char → Option (List Nat × List Char)
  | [] => none
  | '"' :: rest => some ([], rest)
  | '\\' :: 'u' :: a :: b :: c :: d :: rest => do
      let unit ← unit? a b c d
      let (units, rest) ← units? rest
      pure (unit :: units, rest)
  | '\\' :: letter :: rest => do
      let c ← escaped? letter
      let (units, rest) ← units? rest
      pure (c.toNat :: units, rest)
  | c :: rest =>
      if c.toNat < 0x20 || c == '\\' then none
      else do
        let (units, rest) ← units? rest
        pure (c.toNat :: units, rest)

def isHighHalf (n : Nat) : Bool :=
  0xD800 ≤ n && n < 0xDC00

def isLowHalf (n : Nat) : Bool :=
  0xDC00 ≤ n && n < 0xE000

/-- The text of code points in which surrogate pairs stand for the characters above the basic
plane; `none` if half of a pair stands alone. -/
def charsOfUnits? : List Nat → Option (List Char)
  | [] => some []
  | high :: low :: rest =>
      if isHighHalf high then
        if isLowHalf low then
          (charsOfUnits? rest).map
            (Char.ofNat (0x10000 + (high - 0xD800) * 0x400 + (low - 0xDC00)) :: ·)
        else none
      else if isLowHalf high then none
      else (charsOfUnits? (low :: rest)).map (Char.ofNat high :: ·)
  | [unit] => if isHighHalf unit || isLowHalf unit then none else some [Char.ofNat unit]

def stringTail? (text : List Char) : Option (Option String × List Char) :=
  (units? text).map fun (units, rest) => ((charsOfUnits? units).map String.ofList, rest)

def digits? (text : List Char) : Option (List Char × List Char) :=
  let run := text.takeWhile Text.isAsciiDigit
  if run.isEmpty then none else some (run, text.drop run.length)

def integer? (text : List Char) : Option (List Char × List Char) :=
  match digits? text with
  | some (run, rest) =>
      if run.head? == some '0' && 1 < run.length then none else some (run, rest)
  | none => none

def fraction? : List Char → Option (List Char × List Char)
  | '.' :: rest => (digits? rest).map fun (run, rest) => ('.' :: run, rest)
  | rest => some ([], rest)

def exponent? : List Char → Option (List Char × List Char)
  | e :: rest =>
      if e == 'e' || e == 'E' then
        match rest with
        | '+' :: rest => (digits? rest).map fun (run, rest) => (e :: '+' :: run, rest)
        | '-' :: rest => (digits? rest).map fun (run, rest) => (e :: '-' :: run, rest)
        | rest => (digits? rest).map fun (run, rest) => (e :: run, rest)
      else some ([], e :: rest)
  | [] => some ([], [])

def unsigned? (text : List Char) : Option (List Char × List Char) := do
  let (whole, rest) ← integer? text
  let (fraction, rest) ← fraction? rest
  let (exponent, rest) ← exponent? rest
  pure (whole ++ fraction ++ exponent, rest)

def number? : List Char → Option (Json × List Char)
  | '-' :: rest => (unsigned? rest).map fun (spelling, rest) => (.number ('-' :: spelling), rest)
  | text => (unsigned? text).map fun (spelling, rest) => (.number spelling, rest)

/-! ## Values -/

mutual

def value? : Nat → List Char → Option (Json × List Char)
  | 0, _ => none
  | bound + 1, text =>
      match skipSpace text with
      | 'n' :: 'u' :: 'l' :: 'l' :: rest => some (.null, rest)
      | 't' :: 'r' :: 'u' :: 'e' :: rest => some (.bool true, rest)
      | 'f' :: 'a' :: 'l' :: 's' :: 'e' :: rest => some (.bool false, rest)
      | '"' :: rest => (stringTail? rest).map fun (text, rest) => (.string text, rest)
      | '[' :: rest =>
          match skipSpace rest with
          | ']' :: rest => some (.array [], rest)
          | rest => (items? bound rest).map fun (items, rest) => (.array items, rest)
      | '{' :: rest =>
          match skipSpace rest with
          | '}' :: rest => some (.object [], rest)
          | rest => (members? bound rest).map fun (members, rest) => (.object members, rest)
      | text => number? text

def items? : Nat → List Char → Option (List Json × List Char)
  | 0, _ => none
  | bound + 1, text => do
      let (item, rest) ← value? bound text
      match skipSpace rest with
      | ']' :: rest => pure ([item], rest)
      | ',' :: rest =>
          let (items, rest) ← items? bound rest
          pure (item :: items, rest)
      | _ => none

def members? : Nat → List Char → Option (List (Option String × Json) × List Char)
  | 0, _ => none
  | bound + 1, text =>
      match skipSpace text with
      | '"' :: rest => do
          let (name, rest) ← stringTail? rest
          match skipSpace rest with
          | ':' :: rest =>
              let (value, rest) ← value? bound rest
              match skipSpace rest with
              | '}' :: rest => pure ([(name, value)], rest)
              | ',' :: rest =>
                  let (members, rest) ← members? bound rest
                  pure ((name, value) :: members, rest)
              | _ => none
          | _ => none
      | _ => none

end

def parse? (text : String) : Option Json :=
  let chars := text.toList
  match value? (2 * chars.length + 2) chars with
  | some (value, rest) => if (skipSpace rest).isEmpty then some value else none
  | none => none

end Scrutiny.Json
