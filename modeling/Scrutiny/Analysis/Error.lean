import Scrutiny.Worklist.File

/-!
Errors of analyses.  A detector that fails with one of them leaves the others to do their work; a
run itself fails only without a directory to analyse, or where the worklist cannot be written.
-/

namespace Scrutiny

inductive AnalysisError
  | rootNotFound (path : Path)
  | read (path : Path) (reason : String)
  | pattern (name : String) (reason : String)
  | write (error : WriteError)
  deriving DecidableEq, Repr

namespace AnalysisError

def message : AnalysisError → String
  | rootNotFound path => s!"project root is not a directory: {path.text}"
  | read path reason => s!"failed to read file {path.text}: {reason}"
  | pattern name reason => s!"invalid pattern for {name}: {reason}"
  | write error => error.message

/-- The run can go on without what failed. -/
def isRecoverable : AnalysisError → Bool
  | read _ _ => true
  | pattern _ _ => true
  | _ => false

def isFatal (error : AnalysisError) : Bool :=
  !error.isRecoverable

def path? : AnalysisError → Option Path
  | rootNotFound path => some path
  | read path _ => some path
  | pattern _ _ => none
  | write error => error.path?

end AnalysisError

end Scrutiny
