import Scrutiny.Analysis.Error
import Scrutiny.Detect.Scope

/-!
The account of an analysis run: what was proposed, suppressed and stored, which detectors
failed, and how much was read and found.
-/

namespace Scrutiny

/-- Counts of one run.  They are words of sixty-four bits, so that counting starts over after the
largest of them. -/
structure AnalysisStats where
  filesRead : UInt64 := 0
  readErrors : UInt64 := 0
  clones : UInt64 := 0
  secrets : UInt64 := 0
  ruleViolations : UInt64 := 0
  unusedImports : UInt64 := 0
  testSuggestions : UInt64 := 0
  deriving DecidableEq, Repr

namespace AnalysisStats

def addFindings (stats : AnalysisStats) (kind : DetectorKind) (count : Nat) : AnalysisStats :=
  let count := UInt64.ofNat count
  match kind with
  | .clones => { stats with clones := stats.clones + count }
  | .secrets => { stats with secrets := stats.secrets + count }
  | .rules => { stats with ruleViolations := stats.ruleViolations + count }
  | .unusedImports => { stats with unusedImports := stats.unusedImports + count }
  | .coverage => { stats with testSuggestions := stats.testSuggestions + count }

def countRead (stats : AnalysisStats) : AnalysisStats :=
  { stats with filesRead := stats.filesRead + 1 }

def countError (stats : AnalysisStats) : AnalysisStats :=
  { stats with readErrors := stats.readErrors + 1 }

def totalFindings (stats : AnalysisStats) : UInt64 :=
  stats.clones + stats.secrets + stats.ruleViolations + stats.unusedImports +
    stats.testSuggestions

end AnalysisStats

structure DegradedDetector where
  kind : DetectorKind
  error : AnalysisError
  deriving DecidableEq, Repr

def DegradedDetector.text (degraded : DegradedDetector) : String :=
  s!"{degraded.kind.label}: {degraded.error.message}"

/-- The account of a run.  Proposed are findings of different identity; of these the suppressed ones
were rejected before, and the stored ones were not on the worklist yet. -/
structure AnalysisReport where
  proposed : Nat := 0
  suppressed : Nat := 0
  stored : Nat := 0
  degraded : List DegradedDetector := []
  stats : AnalysisStats := {}
  deriving DecidableEq, Repr

namespace AnalysisReport

def isComplete (report : AnalysisReport) : Bool :=
  report.degraded.isEmpty

def summary (report : AnalysisReport) : String :=
  let tail :=
    match report.degraded.length with
    | 0 => ""
    | 1 => ", 1 analyzer degraded"
    | n => s!", {n} analyzers degraded"
  s!"{report.stats.filesRead} files analyzed, {report.proposed} findings ({report.stored} new, {report.suppressed} suppressed){tail}"

end AnalysisReport

end Scrutiny
