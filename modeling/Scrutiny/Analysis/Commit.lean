import Scrutiny.Analysis.Report
import Scrutiny.Review

/-!
Committing what detectors found.  Findings with the same identity count once, rejected ones are
suppressed, and the others go on the worklist.  A detector that failed is noted and otherwise
left out.
-/

namespace Scrutiny

structure Outcome where
  kind : DetectorKind
  result : Except AnalysisError Detection

namespace Outcome

def findings (outcome : Outcome) : List Finding :=
  match outcome.result with
  | .ok detection => detection.findings
  | .error _ => []

def degraded? (outcome : Outcome) : Option DegradedDetector :=
  match outcome.result with
  | .ok _ => none
  | .error error => some ⟨outcome.kind, error⟩

/-- Counts the findings that the detector says it made. -/
def count (stats : AnalysisStats) (outcome : Outcome) : AnalysisStats :=
  match outcome.result with
  | .ok detection => stats.addFindings outcome.kind detection.findingsMade
  | .error _ => stats

end Outcome

namespace Commit

/-- Of the findings with the same identity only the first, given the identities seen before. -/
def distinct (seen : List String) : List Finding → List Finding
  | [] => []
  | finding :: findings =>
      if seen.contains finding.id then distinct seen findings
      else finding :: distinct (finding.id :: seen) findings

def proposed (outcomes : List Outcome) : List Finding :=
  distinct [] (outcomes.flatMap Outcome.findings)

def kept (entries : List PreferenceEntry) (findings : List Finding) : List Finding :=
  findings.filter fun finding =>
    !entries.any fun entry => entry.rejects finding.category finding.subject

end Commit

def commit (files : StateFiles) (now : Instant) (stats : AnalysisStats)
    (outcomes : List Outcome) : TreeStep AnalysisError AnalysisReport := do
  let proposed := Commit.proposed outcomes
  let kept := Commit.kept (files.preferences.entries (← get)) proposed
  let stored ← (files.worklist.add (kept.map fun finding => finding.record now)).adapt .write
  pure {
    proposed := proposed.length
    suppressed := proposed.length - kept.length
    stored := stored
    degraded := outcomes.filterMap Outcome.degraded?
    stats := outcomes.foldl Outcome.count stats
  }

end Scrutiny
