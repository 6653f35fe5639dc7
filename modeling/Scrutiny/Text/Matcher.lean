import Scrutiny.Text.Lines

/-!
Text patterns as matchers.  A matcher reads from a cursor and gives a value and the cursor behind
what it read, or fails.  Runs are read to their end and a choice keeps to its first side that
succeeds; nothing is read a second time in another way.  So patterns are written such that no run
takes what the part after it needs.
-/

namespace Scrutiny.Text

/-- A position in a text: how many characters lie before it, the nearest of them, and what lies
after it. -/
structure Cursor where
  offset : Nat
  previous : Option Char
  rest : List Char
  deriving Repr, DecidableEq

namespace Cursor

def ofText (text : List Char) : Cursor :=
  ⟨0, none, text⟩

def behind (cursor : Cursor) (text : List Char) : Cursor :=
  ⟨cursor.offset + text.length, text.getLast?.or cursor.previous, cursor.rest.drop text.length⟩

def since (stop start : Cursor) : List Char :=
  start.rest.take (stop.offset - start.offset)

def isWordBoundary (cursor : Cursor) : Bool :=
  cursor.previous.any isWordChar != cursor.rest.head?.any isWordChar

end Cursor

def beginsBy (same : Char → Char → Bool) : List Char → List Char → Bool
  | [], _ => true
  | _ :: _, [] => false
  | a :: start, b :: text => same a b && beginsBy same start text

/-- Reads a value of type `α` from a position, if there is one. -/
def Matcher (α : Type) : Type :=
  Cursor → Option (α × Cursor)

namespace Matcher

variable {α β : Type}

/-! ## Building blocks -/

def value (a : α) : Matcher α :=
  fun cursor => some (a, cursor)

def andThen (first : Matcher α) (next : α → Matcher β) : Matcher β :=
  fun cursor => (first cursor).bind fun (a, after) => next a after

instance : Monad Matcher where
  pure := value
  bind := andThen

def either (left right : Matcher α) : Matcher α :=
  fun cursor => (left cursor).or (right cursor)

def anyOf (choices : List (Matcher α)) : Matcher α :=
  fun cursor => choices.findSome? fun choice => choice cursor

def optional (matcher : Matcher α) : Matcher (Option α) :=
  fun cursor =>
    match matcher cursor with
    | some (a, after) => some (some a, after)
    | none => some (none, cursor)

def assert (condition : Cursor → Bool) : Matcher Unit :=
  fun cursor => if condition cursor then some ((), cursor) else none

def wordBoundary : Matcher Unit :=
  assert Cursor.isWordBoundary

def atEnd : Matcher Unit :=
  assert fun cursor => cursor.rest.isEmpty

def char (accepts : Char → Bool) : Matcher Char :=
  fun cursor =>
    match cursor.rest with
    | c :: _ => if accepts c then some (c, cursor.behind [c]) else none
    | [] => none

def run (least : Nat) (accepts : Char → Bool) : Matcher (List Char) :=
  fun cursor =>
    let text := cursor.rest.takeWhile accepts
    if least ≤ text.length then some (text, cursor.behind text) else none

def exactly (count : Nat) (accepts : Char → Bool) : Matcher (List Char) :=
  fun cursor =>
    let text := cursor.rest.take count
    if text.length = count && text.all accepts then some (text, cursor.behind text) else none

/-- A text of as many characters as the given one, each the same under `same`. -/
def literalBy (same : Char → Char → Bool) (text : List Char) : Matcher Unit :=
  fun cursor =>
    if beginsBy same text cursor.rest then
      some ((), cursor.behind (cursor.rest.take text.length))
    else none

def literal (text : String) : Matcher Unit :=
  literalBy (· == ·) text.toList

def word (text : String) : Matcher Unit :=
  literalBy (fun a b => foldCase a == foldCase b) text.toList

def blanks : Matcher (List Char) :=
  run 0 isBlank

def someBlanks : Matcher (List Char) :=
  run 1 isBlank

def matched (matcher : Matcher α) : Matcher (List Char) :=
  fun cursor => (matcher cursor).map fun (_, after) => (after.since cursor, after)

/-! ## Searching -/

structure Hit (α : Type) where
  start : Cursor
  value : α
  stop : Cursor

def Hit.text (hit : Hit α) : List Char :=
  hit.stop.since hit.start

def findFrom? (matcher : Matcher α) (offset : Nat) (previous : Option Char) (rest : List Char) :
    Option (Hit α) :=
  match matcher ⟨offset, previous, rest⟩ with
  | some (a, stop) => some ⟨⟨offset, previous, rest⟩, a, stop⟩
  | none =>
      match rest with
      | [] => none
      | c :: rest => findFrom? matcher (offset + 1) (some c) rest
termination_by structural rest

def find? (matcher : Matcher α) (text : List Char) : Option (Hit α) :=
  matcher.findFrom? 0 none text

def matchStart? (matcher : Matcher α) (text : List Char) : Option α :=
  (matcher (Cursor.ofText text)).map Prod.fst

/-- Reads up to the first position at which a matcher succeeds, and gives the text before that
position and the matcher's value. -/
def upTo (matcher : Matcher α) : Matcher (List Char × α) :=
  fun cursor =>
    (matcher.findFrom? cursor.offset cursor.previous cursor.rest).map fun hit =>
      ((hit.start.since cursor, hit.value), hit.stop)

/-- At most `most` successive matches, each search beginning where the last match stopped.  A
match that reads nothing is the last. -/
def findUpTo (matcher : Matcher α) : Nat → Cursor → List (Hit α)
  | 0, _ => []
  | most + 1, cursor =>
      match matcher.findFrom? cursor.offset cursor.previous cursor.rest with
      | none => []
      | some hit =>
          hit :: if hit.start.offset < hit.stop.offset then findUpTo matcher most hit.stop else []

/-- All matches in a text, none overlapping the one before. -/
def findAll (matcher : Matcher α) (text : List Char) : List (Hit α) :=
  matcher.findUpTo (text.length + 1) (.ofText text)

end Matcher

def lineAt (text : List Char) (offset : Nat) : Nat :=
  (text.take offset).count '\n' + 1

end Scrutiny.Text
