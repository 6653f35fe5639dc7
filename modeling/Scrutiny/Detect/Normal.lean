import Scrutiny.Text.Lines

/-!
The normal form of a piece of code, in which code is compared for duplication.  Comments and
blanks count as one blank, string literals as empty ones and numeric literals as `0`; digits
inside identifiers stay.
-/

namespace Scrutiny.Normal

inductive Mode
  | code
  | lineComment
  /-- The star that opens a block comment comes next. -/
  | blockOpening
  | blockComment (afterStar : Bool)
  | string (quote : Char)
  | escape (quote : Char)
  | number
  deriving DecidableEq, Repr

/-- The scanner: what it is inside of, the last character of code if there is one, and what it
has written, last character first. -/
structure State where
  mode : Mode
  previous : Option Char
  written : List Char
  deriving DecidableEq, Repr

def State.initial : State :=
  ⟨.code, none, []⟩

def writeBlank (written : List Char) : List Char :=
  match written with
  | [] => []
  | ' ' :: _ => written
  | _ => ' ' :: written

def isQuote (c : Char) : Bool :=
  c == '"' || c == '\'' || c == '`'

def isNumberChar (c : Char) : Bool :=
  Text.isAsciiAlphanumeric c || c == '.' || c == '_'

def stepCode (state : State) (c : Char) (next : Option Char) : State :=
  if c == '/' && next == some '/' then ⟨.lineComment, none, writeBlank state.written⟩
  else if c == '/' && next == some '*' then ⟨.blockOpening, none, writeBlank state.written⟩
  -- both quotes are written here, and nothing of what stands between them
  else if isQuote c then ⟨.string c, some c, c :: c :: state.written⟩
  else if Text.isAsciiDigit c && !state.previous.any Text.isIdentChar then
    ⟨.number, some '0', '0' :: state.written⟩
  else if Text.isBlank c then ⟨.code, some ' ', writeBlank state.written⟩
  else ⟨.code, some c, c :: state.written⟩

/-- Reads one character, `next` being the one after it.  Strings in backticks go on over line
ends, all others end there. -/
def step (state : State) (c : Char) (next : Option Char) : State :=
  match state.mode with
  | .code => stepCode state c next
  | .lineComment => if c == '\n' then stepCode { state with mode := .code } c next else state
  | .blockOpening => { state with mode := .blockComment false }
  | .blockComment afterStar =>
      if afterStar && c == '/' then { state with mode := .code }
      else { state with mode := .blockComment (c == '*') }
  | .string quote =>
      if c == '\\' then { state with mode := .escape quote }
      else if c == quote || (c == '\n' && quote != '`') then { state with mode := .code }
      else state
  | .escape quote => { state with mode := .string quote }
  | .number => if isNumberChar c then state else stepCode { state with mode := .code } c next

def scan (state : State) : List Char → State
  | [] => state
  | c :: rest => scan (step state c rest.head?) rest

def chars (text : List Char) : List Char :=
  ((scan .initial text).written.dropWhile Text.isBlank).reverse

def form (text : String) : String :=
  mapChars chars text

end Scrutiny.Normal
