import Scrutiny.Analysis.Commit
import Scrutiny.Detect.Clones
import Scrutiny.Detect.Coverage
import Scrutiny.Detect.Imports
import Scrutiny.Detect.Rules
import Scrutiny.Detect.Secrets
import Scrutiny.Tree.Walk

/-!
Analysis runs: list the project's files, read them, run the detectors and commit what they
found.
-/

namespace Scrutiny

/-! ## The files of a project -/

def projectPaths (tree : Tree) (skipDirs : List String) (followLinks : Bool) (root : Path) :
    Except AnalysisError (List Path) :=
  if tree.isDir root then
    let paths := tree.files skipDirs followLinks root
    .ok ((paths.filter fun path =>
      path.isAnalyzable && !skipDirs.any path.hasComponent).mergeSort Path.le)
  else .error (.rootNotFound root)

def loadSources (tree : Tree) (root : Path) :
    List Path → AnalysisStats → List SourceFile × AnalysisStats
  | [], stats => ([], stats)
  | path :: paths, stats =>
      match tree.readText? (root.join path) with
      | some content =>
          let (files, stats) := loadSources tree root paths stats.countRead
          (⟨path, content⟩ :: files, stats)
      | none => loadSources tree root paths stats.countError

/-! ## Detectors -/

/-- A detector: it looks at the scope and, for documents and tests, at the tree. -/
structure Detector where
  kind : DetectorKind
  run : Tree → Scope → Except AnalysisError Detection

namespace Detector

def clones : Detector := ⟨.clones, fun _ scope => .ok (Clones.detect scope)⟩

def secrets : Detector := ⟨.secrets, fun _ scope => .ok (Secrets.detect scope)⟩

def rules (engine : PatternEngine := {}) : Detector := ⟨.rules, Rules.detect engine⟩

def unusedImports : Detector := ⟨.unusedImports, fun _ scope => .ok (Imports.detect scope)⟩

def coverage : Detector := ⟨.coverage, fun tree scope => .ok (Coverage.detect tree scope)⟩

def standard (engine : PatternEngine := {}) : List Detector :=
  [clones, secrets, rules engine, unusedImports]

end Detector

/-! ## Runs -/

structure Analyzer where
  root : Path
  config : AnalysisConfig
  state : StateFiles
  detectors : List Detector

def StateConfig.files (state : StateConfig) (root : Path) : StateFiles :=
  ⟨⟨state.criticismsPath root⟩, ⟨state.preferencesPath root⟩⟩

namespace Analyzer

/-- The analyzer of a project with the standard detectors and the given ones after them. -/
def open? (tree : Tree) (root : Path) (config : Config) (extra : List Detector)
    (engine : PatternEngine := {}) : Except AnalysisError Analyzer :=
  if tree.isDir root then
    .ok ⟨root, config.analysis, config.state.files root, Detector.standard engine ++ extra⟩
  else .error (.rootNotFound root)

def relative (analyzer : Analyzer) (paths : List Path) : PathSet :=
  .ofList (paths.map fun path => (analyzer.root.stripBase? path).getD path)

def run (analyzer : Analyzer) (now : Instant) (changed : Option PathSet) :
    TreeStep AnalysisError AnalysisReport := do
  let tree ← get
  let paths ← liftExcept (projectPaths tree analyzer.config.skipDirs false analyzer.root)
  let (files, stats) := loadSources tree analyzer.root paths {}
  let scope : Scope := ⟨analyzer.root, files, changed, analyzer.config⟩
  commit analyzer.state now stats
    (analyzer.detectors.map fun detector => ⟨detector.kind, detector.run tree scope⟩)
where
  liftExcept {α : Type} (result : Except AnalysisError α) : TreeStep AnalysisError α :=
    match result with
    | .ok value => pure value
    | .error error => throw error

def analyzeProject (analyzer : Analyzer) (now : Instant) :
    TreeStep AnalysisError AnalysisReport := do
  let report ← analyzer.run now none
  (analyzer.state.worklist.stamp now).adapt .write
  pure report

/-- Analyses changed files and notes the time; without any nothing happens. -/
def analyzeChanged (analyzer : Analyzer) (now : Instant) (paths : List Path) :
    TreeStep AnalysisError AnalysisReport := do
  let changed := analyzer.relative paths
  if changed.isEmpty then pure {}
  else
    let report ← analyzer.run now (some changed)
    (analyzer.state.worklist.stamp now).adapt .write
    pure report

def suggestTests (analyzer : Analyzer) (now : Instant) (paths : List Path) :
    TreeStep AnalysisError AnalysisReport := do
  let changed := analyzer.relative paths
  if changed.isEmpty then pure {}
  else
    let scope : Scope := ⟨analyzer.root, [], some changed, analyzer.config⟩
    commit analyzer.state now {}
      [⟨.coverage, Detector.coverage.run (← get) scope⟩]

end Analyzer

end Scrutiny
