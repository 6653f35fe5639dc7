import Scrutiny.Criticism
import Scrutiny.Json.Parser
import Scrutiny.Json.Printer

/-!
The worklist: all criticisms on record in the order of their first appearance, and the time of
the last analysis.  A finding that is made again refreshes its record and leaves the review
state alone.
-/

namespace Scrutiny

structure Worklist where
  criticisms : List Criticism
  lastAnalysis : Option Instant
  deriving DecidableEq, Repr

namespace Worklist

def empty : Worklist := ⟨[], none⟩

instance : Inhabited Worklist := ⟨empty⟩

/-! ## Looking up -/

def get? (worklist : Worklist) (id : String) : Option Criticism :=
  worklist.criticisms.find? fun criticism => criticism.id == id

def contains (worklist : Worklist) (id : String) : Bool :=
  (worklist.get? id).isSome

def pending (worklist : Worklist) : List Criticism :=
  worklist.criticisms.filter fun criticism => criticism.status.isPending

def ofCategory (worklist : Worklist) (category : Category) : List Criticism :=
  worklist.criticisms.filter fun criticism => criticism.category = category

/-! ## Changing -/

def changeFirst (holds : Criticism → Bool) (change : Criticism → Criticism) :
    List Criticism → List Criticism
  | [] => []
  | criticism :: rest =>
      if holds criticism then change criticism :: rest
      else criticism :: changeFirst holds change rest

/-- The new form of a record under the review state and the creation time of the old one. -/
def refresh (new old : Criticism) : Criticism :=
  { new with status := old.status, reasoning := old.reasoning, createdAt := old.createdAt }

def insert (worklist : Worklist) (criticism : Criticism) : Worklist :=
  if worklist.contains criticism.id then
    { worklist with
      criticisms := changeFirst (fun old => old.id == criticism.id) (refresh criticism)
        worklist.criticisms }
  else { worklist with criticisms := worklist.criticisms ++ [criticism] }

def insertAll (worklist : Worklist) (criticisms : List Criticism) : Worklist :=
  criticisms.foldl insert worklist

def countNew (worklist : Worklist) : List Criticism → Nat
  | [] => 0
  | criticism :: rest =>
      (if worklist.contains criticism.id then 0 else 1) + countNew (worklist.insert criticism) rest

/-- Moves the first criticism with an identity to another state; `none` if there is none or it
may not go there. -/
def setStatus? (worklist : Worklist) (id : String) (status : Status)
    (reasoning : Option String) : Option Worklist := do
  let criticism ← worklist.get? id
  let moved ← criticism.setStatus? status reasoning
  pure { worklist with
    criticisms := changeFirst (fun old => old.id == id) (fun _ => moved) worklist.criticisms }

def stamp (worklist : Worklist) (now : Instant) : Worklist :=
  { worklist with lastAnalysis := some now }

/-! ## JSON -/

def toJson (worklist : Worklist) : Json :=
  .ofMembers
    [("criticisms", .array (worklist.criticisms.map Criticism.toJson)),
      ("lastAnalysis", (worklist.lastAnalysis.map fun instant => .text instant.text).getD .null)]

/-- Reads a worklist; both fields may be missing. -/
def ofJson? (value : Json) : Option Worklist := do
  match ← value.record? ["criticisms", "lastAnalysis"] with
  | [criticisms, lastAnalysis] =>
      pure {
        criticisms := ← Json.defaulted? [] (Json.list? Criticism.ofJson?) criticisms
        lastAnalysis :=
          ← Json.defaulted? none (Json.nullable? Criticism.instantOfJson?) lastAnalysis
      }
  | _ => none

def text (worklist : Worklist) : String :=
  worklist.toJson.pretty

def parse? (text : String) : Option Worklist :=
  (Json.parse? text).bind ofJson?

end Worklist

end Scrutiny
