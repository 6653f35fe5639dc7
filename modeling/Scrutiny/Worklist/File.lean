import Scrutiny.Tree.Basic
import Scrutiny.Worklist.Basic

/-!
The file that holds a worklist.  Every operation reads the whole file, changes the worklist and
writes it back.  Reading never fails: a file that is missing, that is no text or that does not
parse holds the empty worklist.
-/

namespace Scrutiny

inductive WriteError
  | io (path : Path) (reason : String)
  | serialize (reason : String)
  deriving DecidableEq, Repr

namespace WriteError

def message : WriteError → String
  | io path reason => s!"failed to write {path.text}: {reason}"
  | serialize reason => s!"failed to serialize criticisms: {reason}"

def isRecoverable : WriteError → Bool
  | io _ _ => true
  | serialize _ => false

def path? : WriteError → Option Path
  | io path _ => some path
  | serialize _ => none

end WriteError

/-- A step on a directory tree that may fail.  What it wrote before failing stays written. -/
abbrev TreeStep (ε α : Type) : Type :=
  ExceptT ε (StateM Tree) α

def Tree.saveText (path : Path) (text : String) : TreeStep WriteError Unit := do
  match path.parent? with
  | some parent =>
      let (made, tree) := (← get).makeDirs parent
      set tree
      match made with
      | .ok () => pure ()
      | .error error => throw (.io parent error.message)
  | none => pure ()
  match (← get).writeText path text with
  | .ok tree => set tree
  | .error error => throw (.io path error.message)

structure WorklistFile where
  path : Path
  deriving DecidableEq, Repr

namespace WorklistFile

def load (file : WorklistFile) (tree : Tree) : Worklist :=
  ((tree.readText? file.path).bind Worklist.parse?).getD .empty

def save (file : WorklistFile) (worklist : Worklist) : TreeStep WriteError Unit :=
  Tree.saveText file.path (worklist.text ++ "\n")

/-- Adds criticisms and counts those that are new.  Without criticisms nothing is written. -/
def add (file : WorklistFile) (criticisms : List Criticism) : TreeStep WriteError Nat := do
  let worklist := file.load (← get)
  if !criticisms.isEmpty then
    file.save (worklist.insertAll criticisms)
  pure (worklist.countNew criticisms)

/-- Moves a criticism to another state and says whether it went there.  A miss writes nothing. -/
def setStatus (file : WorklistFile) (id : String) (status : Status)
    (reasoning : Option String) : TreeStep WriteError Bool := do
  match (file.load (← get)).setStatus? id status reasoning with
  | some worklist =>
      file.save worklist
      pure true
  | none => pure false

def stamp (file : WorklistFile) (now : Instant) : TreeStep WriteError Unit := do
  file.save ((file.load (← get)).stamp now)

end WorklistFile

end Scrutiny
