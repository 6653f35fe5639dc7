import Scrutiny.Detect.Scope
import Scrutiny.Text.Matcher

/-!
Static imports of script files, and the imported names that nothing uses.  A statement may go
over several lines; a name counts as used if it stands as a whole word on a line that is part
of none.
-/

namespace Scrutiny

structure ImportedName where
  name : List Char
  typeOnly : Bool
  deriving DecidableEq, Repr

structure ImportStatement where
  line : Nat
  endLine : Nat
  source : List Char
  names : List ImportedName
  deriving DecidableEq, Repr

namespace Imports

open Text Matcher

/-! ## Whole words -/

/-- Looks for a word from a position on, `previous` being the character before it.  Where the
word stands inside a longer one the search goes on behind it; `fuel` bounds the steps. -/
def containsWordFrom (word : List Char) (fuel : Nat) (previous : Option Char)
    (text : List Char) : Bool :=
  match fuel, text with
  | 0, _ => false
  | _, [] => false
  | fuel + 1, c :: rest =>
      if word.isPrefixOf (c :: rest) then
        let after := (c :: rest).drop word.length
        (!previous.any isIdentChar && !after.head?.any isIdentChar) ||
          containsWordFrom word fuel word.getLast? after
      else containsWordFrom word fuel (some c) rest

/-- Whether a word occurs without identifier characters on either side.  The empty word never
does. -/
def containsWord (text word : List Char) : Bool :=
  !word.isEmpty && containsWordFrom word (text.length + 1) none text

/-! ## Clauses -/

def opensImport (line : List Char) : Bool :=
  match dropPrefix? "import".toList line with
  | some (c :: _) => isBlank c || c == '\x7b' || c == '*' || c == '\'' || c == '"'
  | _ => false

def bracedName (typeOnly : Bool) (item : List Char) : Option ImportedName :=
  let item := trim item
  let (item, marked) :=
    match dropPrefix? "type ".toList item with
    | some rest => (trim rest, true)
    | none => (item, false)
  let name := trim ((afterLast? " as ".toList item).getD item)
  if isIdentifier name then some ⟨name, typeOnly || marked⟩ else none

def plainName (typeOnly : Bool) (part : List Char) : Option ImportedName :=
  let part := trim part
  let name :=
    match part with
    | '*' :: rest =>
        match dropPrefix? "as".toList (trim rest) with
        | some bound => trim bound
        | none => part
    | _ => part
  if isIdentifier name then some ⟨name, typeOnly⟩ else none

/-- The text before the first opening brace, between it and the last closing one, and after
that, if they stand in this order. -/
def splitBraces? (clause : List Char) : Option (List Char × List Char × List Char) :=
  let front := clause.takeWhile (· != '\x7b')
  let back := (clause.reverse.takeWhile (· != '\x7d')).reverse
  if front.length + back.length + 2 ≤ clause.length then
    some (front, (clause.drop (front.length + 1)).take
      (clause.length - front.length - back.length - 2), back)
  else none

def clauseNames (typeOnly : Bool) (clause : List Char) : List ImportedName :=
  match splitBraces? clause with
  | some (front, inside, back) =>
      (splitOn ',' inside).filterMap (bracedName typeOnly) ++
        (splitOn ',' (front ++ back)).filterMap (plainName typeOnly)
  | none => (splitOn ',' clause).filterMap (plainName typeOnly)

/-! ## Statements -/

def quoteMark : Matcher Char :=
  char fun c => c == '\'' || c == '"'

def quotedSource : Matcher (List Char) := do
  let _ ← quoteMark
  let source ← run 1 fun c => c != '\'' && c != '"'
  let _ ← quoteMark
  pure source

def fromSource : Matcher (List Char) := do
  wordBoundary
  literal "from"
  let _ ← blanks
  quotedSource

/-- A clause, without the blanks at its end, and the source after it.  A clause has at least one
character; where none is left but blanks stand before it, the last of them is the clause. -/
def clauseThenSource : Matcher (List Char × List Char) := do
  let gap ← someBlanks
  either
    (do
      let first ← char fun _ => true
      let (skipped, source) ← upTo fromSource
      pure (first :: trimEnd skipped, source))
    (do
      assert fun _ => 2 ≤ gap.length
      let source ← fromSource
      pure (gap.getLast?.toList, source))

def importKeyword : Matcher Unit := do
  let _ ← blanks
  literal "import"

def clauseImport : Matcher (Bool × List Char × List Char) :=
  either
    (do
      let _ ← someBlanks
      literal "type"
      let (clause, source) ← clauseThenSource
      pure (true, clause, source))
    (do
      let (clause, source) ← clauseThenSource
      pure (false, clause, source))

def bareImport : Matcher (List Char) := do
  let _ ← blanks
  quotedSource

def statement : Matcher (List Char × List ImportedName) := do
  importKeyword
  either
    (do
      let (typeOnly, clause, source) ← clauseImport
      pure (source, clauseNames typeOnly clause))
    (do
      let source ← bareImport
      pure (source, []))

def mostLines : Nat := 64

/-- Reads a statement that begins with the given text, taking up to `more` of the lines that
follow, and says how many it took.  A semicolon ends the attempt, and so does a line that opens
another import. -/
def readStatement? : Nat → List Char → List (List Char) →
    Option (Nat × List Char × List ImportedName)
  | more, text, following =>
      match statement.matchStart? text with
      | some (source, names) => some (0, source, names)
      | none =>
          match more, following with
          | more + 1, line :: following =>
              if (text.reverse.takeWhile (· != '\n')).contains ';' ||
                  opensImport (trimStart line) then none
              else
                (readStatement? more (text ++ '\n' :: line) following).map
                  fun (taken, result) => (taken + 1, result)
          | _, _ => none

def statementsFrom (number : Nat) : List (List Char) → List ImportStatement
  | [] => []
  | line :: following =>
      if opensImport (trimStart line) then
        match readStatement? (mostLines - 1) line following with
        | some (taken, source, names) =>
            ⟨number, number + taken, source, names⟩ ::
              statementsFrom (number + taken + 1) (following.drop taken)
        | none => statementsFrom (number + 1) following
      else statementsFrom (number + 1) following
termination_by lines => lines.length
decreasing_by all_goals simp only [List.length_cons, List.length_drop]; omega

def statements (content : List Char) : List ImportStatement :=
  statementsFrom 1 (lines content)

/-! ## Unused names -/

def ImportStatement.covers (statement : ImportStatement) (line : Nat) : Bool :=
  statement.line ≤ line && line ≤ statement.endLine

def bodyLines (content : List Char) (statements : List ImportStatement) : List (List Char) :=
  ((numbered (lines content)).filter fun (number, _) =>
    !statements.any fun statement => ImportStatement.covers statement number).map Prod.snd

def dropRepeats : List (List Char × Nat) → List (List Char × Nat)
  | [] => []
  | [item] => [item]
  | first :: second :: rest =>
      if first.1 == second.1 then dropRepeats (first :: rest)
      else first :: dropRepeats (second :: rest)
termination_by items => items.length

def unused (content : List Char) : List (List Char × Nat) :=
  let found := statements content
  let body := bodyLines content found
  let named := found.flatMap fun statement =>
    statement.names.map fun name => (name.name, statement.line)
  dropRepeats (named.filter fun (name, _) => !body.any fun line => containsWord line name)

def mediumFrom : Nat := 5

def distinctSorted (names : List String) : List String :=
  go (Identity.sortTexts names)
where
  go : List String → List String
    | [] => []
    | [name] => [name]
    | first :: second :: rest =>
        if first == second then go (second :: rest) else first :: go (second :: rest)

def checkFile (file : SourceFile) : Option Finding :=
  let found := unused file.content.toList
  (found.map Prod.snd).min?.map fun line =>
    let names := distinctSorted (found.map fun (name, _) => String.ofList name)
    let list := joinWith ", " names
    let noun := if names.length = 1 then "import is" else "imports are"
    let count := names.length
    { category := .elim
      subject := s!"unused imports: {list}"
      description := s!"{count} {noun} never used in {file.path.text}: {list}."
      files := [file.path]
      location := some (lineLocation file.path line)
      severity := if mediumFrom ≤ names.length then .medium else .low }

def detect (scope : Scope) : Detection :=
  .ofFiles (scope.targets.filter fun file => file.path.isScript) fun file =>
    (checkFile file).toList

end Imports

end Scrutiny
