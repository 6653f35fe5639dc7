import Scrutiny.Digest.Sha256
import Scrutiny.Path

/-!
Findings: what a detector says about a project.  A finding's identity comes from its category,
its subject and its files in any order, so the same finding is recognised on every run.
-/

namespace Scrutiny

inductive Category
  | elim
  | simplify
  | test
  deriving DecidableEq, Repr

namespace Category

def all : List Category := [elim, simplify, test]

def label : Category → String
  | elim => "ELIM"
  | simplify => "SIMPLIFY"
  | test => "TEST"

def ofLabel? (label : String) : Option Category :=
  all.find? fun category => category.label == label

/-- Reads a label in any ASCII letter case, with blanks around it; a text that is none is given
back as it was compared. -/
def parse (text : String) : Except String Category :=
  let name := mapChars (fun chars => (Text.trim chars).map Text.upperAscii) text
  match ofLabel? name with
  | some category => .ok category
  | none => .error name

end Category

inductive Severity
  | low
  | medium
  | high
  deriving DecidableEq, Repr

namespace Severity

def all : List Severity := [low, medium, high]

def label : Severity → String
  | low => "low"
  | medium => "medium"
  | high => "high"

def ofLabel? (label : String) : Option Severity :=
  all.find? fun severity => severity.label == label

def rank : Severity → Nat
  | low => 0
  | medium => 1
  | high => 2

/-- The less urgent first. -/
def le (a b : Severity) : Bool :=
  a.rank ≤ b.rank

end Severity

/-! ## Identities -/

namespace Identity

def sortTexts (texts : List String) : List String :=
  texts.mergeSort fun a b => decide (a ≤ b)

/-- The bytes that an identity is the digest of: the category's label, the subject, and the
sorted files with commas between them. -/
def bytes (category : Category) (subject : String) (files : List String) : List UInt8 :=
  category.label.toUTF8.toList ++ subject.toUTF8.toList ++
    (joinWith "," (sortTexts files)).toUTF8.toList

def length : Nat := 16

def of (category : Category) (subject : String) (files : List String) : String :=
  String.ofList ((Sha256.hex (bytes category subject files)).take length)

end Identity

def lineLocation (path : Path) (line : Nat) : String :=
  s!"{path.text}:{line}"

structure Finding where
  category : Category
  subject : String
  description : String
  files : List Path
  location : Option String
  severity : Severity
  deriving DecidableEq, Repr

namespace Finding

def id (finding : Finding) : String :=
  Identity.of finding.category finding.subject (finding.files.map Path.text)

end Finding

end Scrutiny
