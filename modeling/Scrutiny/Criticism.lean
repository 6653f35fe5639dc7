import Scrutiny.Finding
import Scrutiny.Json.Value
import Scrutiny.Time.Instant

/-!
Criticisms: findings on record, with their review state.  A criticism starts as pending and
never returns to it.
-/

namespace Scrutiny

inductive Status
  | pending
  | accepted
  | rejected
  | skipped
  deriving DecidableEq, Repr

namespace Status

def all : List Status := [pending, accepted, rejected, skipped]

def label : Status → String
  | pending => "pending"
  | accepted => "accepted"
  | rejected => "rejected"
  | skipped => "skipped"

def ofLabel? (label : String) : Option Status :=
  all.find? fun status => status.label == label

def isPending (status : Status) : Bool :=
  status = pending

/-- Every state may be entered from every state, pending from none. -/
def mayBecome (_ next : Status) : Bool :=
  !next.isPending

end Status

structure Criticism where
  id : String
  category : Category
  subject : String
  description : String
  files : List Path
  location : Option String
  severity : Severity
  status : Status
  createdAt : Instant
  reasoning : Option String
  deriving DecidableEq, Repr

def Finding.record (finding : Finding) (now : Instant) : Criticism where
  id := finding.id
  category := finding.category
  subject := finding.subject
  description := finding.description
  files := finding.files
  location := finding.location
  severity := finding.severity
  status := .pending
  createdAt := now
  reasoning := none

namespace Criticism

/-- Moves the criticism to another state, if it may go there.  Reasoning is kept unless there is
a new one. -/
def setStatus? (criticism : Criticism) (status : Status) (reasoning : Option String) :
    Option Criticism :=
  if criticism.status.mayBecome status then
    some { criticism with status, reasoning := reasoning.orElse fun _ => criticism.reasoning }
  else none

/-- Where the criticism points: its location, else its first file, else the project. -/
def displayLocation (criticism : Criticism) : String :=
  match criticism.location, criticism.files with
  | some location, _ => location
  | none, file :: _ => file.text
  | none, [] => "project"

/-! ## JSON -/

def fieldNames : List String :=
  ["id", "category", "subject", "description", "files", "location", "severity", "status",
    "createdAt", "reasoning"]

def optionalField (name : String) (value : Option String) : List (String × Json) :=
  match value with
  | some text => [(name, .text text)]
  | none => []

def toJson (criticism : Criticism) : Json :=
  .ofMembers <|
    [("id", .text criticism.id),
      ("category", .text criticism.category.label),
      ("subject", .text criticism.subject),
      ("description", .text criticism.description),
      ("files", .array (criticism.files.map fun file => .text file.text))] ++
    optionalField "location" criticism.location ++
    [("severity", .text criticism.severity.label),
      ("status", .text criticism.status.label),
      ("createdAt", .text criticism.createdAt.text)] ++
    optionalField "reasoning" criticism.reasoning

def pathOfJson? (value : Json) : Option Path :=
  value.string?.map Path.mk

def instantOfJson? (value : Json) : Option Instant :=
  value.string?.bind Instant.parse?

def statusOfJson? (value : Json) : Option Status :=
  value.label?.bind Status.ofLabel?

/-- Reads a criticism.  Location, status and reasoning may be missing. -/
def ofJson? (value : Json) : Option Criticism := do
  match ← value.record? fieldNames with
  | [id, category, subject, description, files, location, severity, status, createdAt,
      reasoning] =>
      pure {
        id := ← Json.required? Json.string? id
        category := ← Json.required? (fun label => label.label?.bind Category.ofLabel?) category
        subject := ← Json.required? Json.string? subject
        description := ← Json.required? Json.string? description
        files := ← Json.required? (Json.list? pathOfJson?) files
        location := ← Json.defaulted? none (Json.nullable? Json.string?) location
        severity := ← Json.required? (fun label => label.label?.bind Severity.ofLabel?) severity
        status := ← Json.defaulted? .pending statusOfJson? status
        createdAt := ← Json.required? instantOfJson? createdAt
        reasoning := ← Json.defaulted? none (Json.nullable? Json.string?) reasoning
      }
  | _ => none

end Criticism

end Scrutiny
