import Scrutiny.Finding
import Scrutiny.Text.Matcher
import Scrutiny.Time.Date

/-!
Decisions on record.  An entry is written as one bullet of a markdown list and read back from
one; both forms stand side by side here.
-/

namespace Scrutiny

inductive Decision
  | accepted
  | rejected
  deriving DecidableEq, Repr

namespace Decision

def label : Decision → String
  | accepted => "accepted"
  | rejected => "rejected"

def header : Decision → String
  | accepted => "## Accepted"
  | rejected => "## Rejected"

def ofHeader? (line : List Char) : Option Decision :=
  [accepted, rejected].find? fun decision => decision.header.toList == line

end Decision

structure PreferenceEntry where
  date : Date
  category : Category
  subject : String
  location : String
  reasoning : Option String
  decision : Decision
  deriving DecidableEq, Repr

namespace PreferenceEntry

/-- A subject that fits between backticks on one line: backticks become apostrophes and line
breaks blanks. -/
def sanitize (subject : String) : String :=
  mapChars
    (fun chars => chars.map fun c =>
      if c == '`' then '\'' else if c == '\n' || c == '\r' then ' ' else c)
    subject

def rejects (entry : PreferenceEntry) (category : Category) (subject : String) : Bool :=
  entry.decision = .rejected && entry.category = category && entry.subject == sanitize subject

/-! ## Writing -/

def writtenReasoning (entry : PreferenceEntry) : Option String :=
  entry.reasoning.filter fun text => !Text.isBlankText text.toList

def bullet (entry : PreferenceEntry) : String :=
  let head :=
    "- " ++ entry.date.text ++ ": " ++ entry.category.label ++ " `" ++ sanitize entry.subject ++
      "` in " ++ mapChars Text.oneLine entry.location
  match entry.writtenReasoning with
  | some text => head ++ " - \"" ++ mapChars Text.oneLine text ++ "\""
  | none => head

/-! ## Reading -/

def reasoningMark : List Char := " - \"".toList

/-- Splits what follows a location's first character into the rest of the location and the
reasoning: at the first mark that opens one, if a quote closes it at the end. -/
def splitReasoning (text : List Char) : List Char × Option (List Char) :=
  match text with
  | [] => ([], none)
  | c :: rest =>
      let opened := (Text.dropPrefix? reasoningMark text).filter fun inside =>
        inside.getLast? == some '"'
      match opened with
      | some inside => ([], some inside.dropLast)
      | none =>
          let (location, reasoning) := splitReasoning rest
          (c :: location, reasoning)

/-- The location and the reasoning at the end of a bullet.  A location has at least one
character. -/
def placeAndReason? : List Char → Option (List Char × Option (List Char))
  | [] => none
  | c :: rest =>
      if (c :: rest).getLast? == some '"' then
        let (location, reasoning) := splitReasoning rest
        some (c :: location, reasoning)
      else some (c :: rest, none)

open Text in
def bulletParts : Matcher (List Char × List Char × List Char × List Char × List Char ×
    List Char) := do
  Matcher.literal "- "
  let year ← Matcher.exactly 4 isAsciiDigit
  Matcher.literal "-"
  let month ← Matcher.exactly 2 isAsciiDigit
  Matcher.literal "-"
  let day ← Matcher.exactly 2 isAsciiDigit
  Matcher.literal ": "
  let label ← Matcher.matched (Matcher.anyOf (Category.all.map fun c => Matcher.literal c.label))
  Matcher.literal " `"
  let subject ← Matcher.run 0 fun c => c != '`'
  Matcher.literal "` in "
  let rest ← Matcher.run 0 fun _ => true
  pure (year, month, day, label, subject, rest)

/-- The entry of a bullet in a section; `none` if the line is no bullet or names no day. -/
def ofBullet? (decision : Decision) (line : List Char) : Option PreferenceEntry := do
  let (year, month, day, label, subject, rest) ← bulletParts.matchStart? line
  let (location, reasoning) ← placeAndReason? rest
  let date ← Date.ofDigits? year month day
  let category ← Category.ofLabel? (String.ofList label)
  pure {
    date, category, decision
    subject := String.ofList subject
    location := String.ofList location
    reasoning := reasoning.map String.ofList
  }

end PreferenceEntry

end Scrutiny
