import Scrutiny.Config.Basic
import Scrutiny.Finding

/-!
What detectors are given and what they give back.  In an incremental run only some files are in
scope; the others may still be compared with.
-/

namespace Scrutiny

inductive DetectorKind
  | clones
  | secrets
  | rules
  | unusedImports
  | coverage
  deriving DecidableEq, Repr

namespace DetectorKind

def all : List DetectorKind := [clones, secrets, rules, unusedImports, coverage]

def label : DetectorKind → String
  | clones => "clones"
  | secrets => "secrets"
  | rules => "rules"
  | unusedImports => "unused-imports"
  | coverage => "coverage"

def ofLabel? (label : String) : Option DetectorKind :=
  all.find? fun kind => kind.label == label

end DetectorKind

/-- A set of paths, equal by meaning; of equal paths the first stands for all. -/
structure PathSet where
  paths : List Path
  deriving DecidableEq, Repr

namespace PathSet

def contains (set : PathSet) (path : Path) : Bool :=
  set.paths.any fun member => member.same path

def insert (set : PathSet) (path : Path) : PathSet :=
  if set.contains path then set else ⟨set.paths ++ [path]⟩

def ofList (paths : List Path) : PathSet :=
  paths.foldl insert ⟨[]⟩

def isEmpty (set : PathSet) : Bool :=
  set.paths.isEmpty

def sorted (set : PathSet) : List Path :=
  set.paths.mergeSort Path.le

end PathSet

structure Scope where
  root : Path
  files : List SourceFile
  /-- The changed paths, or nothing when everything is in scope. -/
  changed : Option PathSet
  config : AnalysisConfig

namespace Scope

def includes (scope : Scope) (path : Path) : Bool :=
  match scope.changed with
  | none => true
  | some changed => changed.contains path

def targets (scope : Scope) : List SourceFile :=
  scope.files.filter fun file => scope.includes file.path

end Scope

/-- What a detector gives back.  How many findings it says that it made is for it to say: they need
not be as many as it gives. -/
structure Detection where
  findings : List Finding
  filesExamined : Nat
  findingsMade : Nat
  deriving DecidableEq, Repr

namespace Detection

def empty : Detection := ⟨[], 0, 0⟩

/-- The findings, all of them counted. -/
def of (findings : List Finding) (filesExamined : Nat) : Detection :=
  ⟨findings, filesExamined, findings.length⟩

def ofFiles (files : List SourceFile) (check : SourceFile → List Finding) : Detection :=
  .of (files.flatMap check) files.length

end Detection

end Scrutiny
