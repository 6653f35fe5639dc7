import Scrutiny.Proofs.Analysis.Commit
import Scrutiny.Proofs.Detect.RuleAttribution
import Scrutiny.Proofs.Tree.Flat
import Scrutiny.Proofs.Tree.Resaving
import Scrutiny.Proofs.Tree.Walk

/-!
From the files of a project to the findings of a run.  Every file that a walk gets to and that is
worth reading is read, checked by the detectors that it is for, and what they find there is
proposed.
-/

namespace Scrutiny

/-! ## 1. What a run commits -/

namespace Analyzer

variable (analyzer : Analyzer) (tree : Tree)

/-- The paths of the project's files that are worth reading, in order. -/
def paths : List Path :=
  ((tree.files analyzer.config.skipDirs false analyzer.root).filter fun path =>
    path.isAnalyzable && !analyzer.config.skipDirs.any path.hasComponent).mergeSort Path.le

/-- The project's files, and how many could be read. -/
def sources : List SourceFile × AnalysisStats :=
  loadSources tree analyzer.root (analyzer.paths tree) {}

/-- What the detectors give. -/
def outcomes (changed : Option PathSet) : List Outcome :=
  let scope : Scope := ⟨analyzer.root, (analyzer.sources tree).1, changed, analyzer.config⟩
  analyzer.detectors.map fun detector => ⟨detector.kind, detector.run tree scope⟩

/-- What the detectors of every run give on files and rule documents. -/
def outcomesOn (engine : PatternEngine) (scope : Scope) (documents : List (Path × String)) :
    List Outcome :=
  [⟨.clones, .ok (Clones.detect scope)⟩, ⟨.secrets, .ok (Secrets.detect scope)⟩,
    ⟨.rules, Rules.detectWith engine (Rules.mineAll documents) scope⟩,
    ⟨.unusedImports, .ok (Imports.detect scope)⟩]

variable {analyzer tree} {engine : PatternEngine}

/-- Of the detectors of every run only the one for rules looks at the tree, and that for the rule
documents. -/
theorem outcomes_eq (h : analyzer.detectors = Detector.standard engine)
    (changed : Option PathSet) :
    analyzer.outcomes tree changed =
      outcomesOn engine ⟨analyzer.root, (analyzer.sources tree).1, changed, analyzer.config⟩
        (Rules.documents tree analyzer.root analyzer.config) := by
  rw [outcomes, h]
  rfl

/-- A run commits what the detectors give on the project's files. -/
theorem exec_run (h : tree.isDir analyzer.root = true) (now : Instant) (changed : Option PathSet) :
    (analyzer.run now changed).exec tree =
      (commit analyzer.state now (analyzer.sources tree).2
        (analyzer.outcomes tree changed)).exec tree := by
  have hpaths : projectPaths tree analyzer.config.skipDirs false analyzer.root =
      .ok (analyzer.paths tree) := if_pos h
  rw [run, TreeStep.exec_get_bind, hpaths]
  rfl

end Analyzer

/-- What an analyzer that was opened has. -/
theorem Analyzer.spec_of_open? {analyzer : Analyzer} {tree : Tree} {root : Path} {config : Config}
    {extra : List Detector} {engine : PatternEngine}
    (h : Analyzer.open? tree root config extra engine = .ok analyzer) :
    tree.isDir root = true ∧ analyzer.root = root ∧ analyzer.config = config.analysis ∧
      analyzer.state = config.state.files root ∧
        analyzer.detectors = Detector.standard engine ++ extra := by
  rw [open?] at h
  split at h
  next hroot =>
    rw [Except.ok.injEq] at h
    subst h
    exact ⟨hroot, rfl, rfl, rfl, rfl⟩
  next => exact absurd h (by simp)

/-- The detectors of the program say that they made the findings that they give. -/
theorem Detector.findingsMade_of_run {engine : PatternEngine} {detector : Detector}
    (h : detector ∈ standard engine ∨ detector = coverage) {tree : Tree} {scope : Scope}
    {detection : Detection} (hrun : detector.run tree scope = .ok detection) :
    detection.findingsMade = detection.findings.length := by
  simp only [standard, List.mem_cons, List.not_mem_nil, or_false] at h
  rcases h with (rfl | rfl | rfl | rfl) | rfl
  case inl.inr.inr.inl =>
    change Rules.detectWith engine (Rules.load tree scope.root scope.config) scope = _ at hrun
    cases hbuild : Rules.build engine (Rules.load tree scope.root scope.config) with
    | error error => exact absurd (Rules.detectWith_of_build_error hbuild scope ▸ hrun) (by simp)
    | ok mined =>
      rw [Rules.detectWith_of_build hbuild] at hrun
      rw [← Except.ok.inj hrun]
      rfl
  case inr =>
    rw [← Except.ok.inj hrun, Coverage.detect]
    split <;> rfl
  all_goals
    rw [← Except.ok.inj hrun]
    rfl

theorem Analyzer.findingsMade_of_mem_outcomes {analyzer : Analyzer} {engine : PatternEngine}
    (hdetectors : analyzer.detectors = Detector.standard engine) {tree : Tree}
    {changed : Option PathSet} {outcome : Outcome} (h : outcome ∈ analyzer.outcomes tree changed) :
    outcome.findingsMade = outcome.findings.length := by
  obtain ⟨detector, hdetector, rfl⟩ := List.mem_map.mp h
  rw [hdetectors] at hdetector
  exact Outcome.findingsMade_eq fun detection hrun =>
    Detector.findingsMade_of_run (.inl hdetector) hrun

/-! ## 2. Files that are read -/

theorem loadSources_cons (tree : Tree) (root path : Path) (paths : List Path)
    (stats : AnalysisStats) : loadSources tree root (path :: paths) stats =
      match tree.readText? (root.join path) with
      | some content =>
          let (files, stats) := loadSources tree root paths stats.countRead
          (⟨path, content⟩ :: files, stats)
      | none => loadSources tree root paths stats.countError := (rfl)

theorem loadSources_fst (tree : Tree) (root : Path) (paths : List Path) (stats : AnalysisStats) :
    (loadSources tree root paths stats).1 = paths.filterMap fun path =>
      (tree.readText? (root.join path)).map (SourceFile.mk path) := by
  induction paths generalizing stats with
  | nil => rfl
  | cons path paths ih =>
    rw [loadSources_cons, List.filterMap_cons]
    cases tree.readText? (root.join path) with
    | none => simp only [Option.map_none, ih]
    | some content => simp only [Option.map_some, ih]

theorem totalFindings_loadSources (tree : Tree) (root : Path) (paths : List Path)
    (stats : AnalysisStats) :
    (loadSources tree root paths stats).2.totalFindings = stats.totalFindings := by
  induction paths generalizing stats with
  | nil => rfl
  | cons path paths ih =>
    rw [loadSources_cons]
    cases tree.readText? (root.join path) with
    | none => exact ih stats.countError
    | some content => exact ih stats.countRead

/-- A run of the standard detectors counts no fewer findings than it proposes, as long as the words
hold them. -/
theorem Analyzer.proposed_le_totalFindings {analyzer : Analyzer} {engine : PatternEngine}
    {tree after : Tree} {now : Instant} {changed : Option PathSet} {report : AnalysisReport}
    (hdetectors : analyzer.detectors = Detector.standard engine)
    (hroot : tree.isDir analyzer.root = true)
    (hroom : ((analyzer.outcomes tree changed).flatMap Outcome.findings).length < 2 ^ 64)
    (h : (analyzer.run now changed).exec tree = (.ok report, after)) :
    report.proposed ≤ report.stats.totalFindings.toNat := by
  have hmade : ∀ outcome ∈ analyzer.outcomes tree changed,
      outcome.findingsMade = outcome.findings.length :=
    fun outcome houtcome => findingsMade_of_mem_outcomes hdetectors houtcome
  have hsum : ((analyzer.outcomes tree changed).map Outcome.findingsMade).sum =
      ((analyzer.outcomes tree changed).flatMap Outcome.findings).length := by
    rw [List.length_flatMap, List.map_congr_left hmade]
  rw [exec_run hroot] at h
  obtain ⟨stored, -, rfl⟩ := exec_commit h
  refine Commit.length_proposed_le_totalFindings (fun outcome houtcome => ?_) (hsum ▸ hroom)
    (totalFindings_loadSources _ _ _ _)
  exact (hmade outcome houtcome).ge

theorem Path.isAnalyzable_of_isSource {path : Path} (h : path.isSource = true) :
    path.isAnalyzable = true := by
  rw [isSource] at h
  simp [isAnalyzable, h]

/-- Scripts are worth reading, unless they have one of two extensions; with these, only settings
files are. -/
theorem Path.isAnalyzable_of_isScript {path : Path} (h : path.isScript = true)
    (hmodule : path.hasExtensionIn ["mts", "cts"] = true → path.nameStartsWith ".env." = true) :
    path.isAnalyzable = true := by
  by_cases hext : path.hasExtensionIn ["mts", "cts"] = true
  · simp [isAnalyzable, hmodule hext]
  · have hextensions : ∀ extension ∈ scriptExtensions,
        sourceExtensions.contains extension || ["mts", "cts"].contains extension := by decide
    apply isAnalyzable_of_isSource
    rw [isScript, hasExtensionIn, Option.any_eq_true] at h
    obtain ⟨extension, hextension, hmem⟩ := h
    rw [hasExtensionIn, hextension, Option.any_some] at hext
    have heither := hextensions extension (List.contains_iff_mem.mp hmem)
    rw [isSource, hasExtensionIn, hextension, Option.any_some]
    rwa [eq_false_of_ne_true hext, Bool.or_false] at heither

namespace Analyzer

variable {analyzer : Analyzer} {tree : Tree} {base names : List String} {content : Content}
  {text : String}

theorem mem_sources (hd : tree.HasDirectory) (hbase : tree.dirNames? analyzer.root = some base)
    (hnames : ∀ name ∈ names, Tree.IsName name)
    (hfile : tree.top.at? (base ++ names) = some (.file content))
    (hread : tree.readText? (analyzer.root.join (Tree.pathOf names)) = some text)
    (hkept : tree.ignores analyzer.root base names = false)
    (hskip : ∀ name ∈ names, analyzer.config.skipDirs.contains name = false)
    (hanalyzable : (Tree.pathOf names).isAnalyzable = true) :
    ⟨Tree.pathOf names, text⟩ ∈ (analyzer.sources tree).1 := by
  have hfiles := Tree.mem_files hd hbase hfile hkept
    fun name hname => hskip name (List.dropLast_subset names hname)
  have hcomponent := (Tree.any_hasComponent_pathOf hnames).mpr hskip
  rw [sources, loadSources_fst, List.mem_filterMap]
  refine ⟨Tree.pathOf names, ?_, by rw [hread]; rfl⟩
  rw [paths, List.mem_mergeSort, List.mem_filter]
  exact ⟨hfiles, by rw [hanalyzable, hcomponent]; rfl⟩

/-! ## 3. Findings that are proposed -/

-- Of the findings of one identity some is proposed.
theorem mem_ids_proposed {outcomes : List Outcome} {finding : Finding}
    (h : finding ∈ outcomes.flatMap Outcome.findings) :
    finding.id ∈ (Commit.proposed outcomes).map Finding.id := by
  rw [Commit.proposed, Commit.distinct_eq_firstsBy]
  obtain ⟨first, hfirst, hid⟩ := exists_mem_firstsBy h (List.not_mem_nil (a := finding.id))
  exact hid ▸ List.mem_map_of_mem hfirst

/-- What a detector finds in a file that was read is proposed. -/
theorem mem_ids_of_mem_sources (detector : Detector) (holds : SourceFile → Bool)
    (check : SourceFile → List Finding) (hdetector : detector ∈ analyzer.detectors)
    (hrun : ∀ scope : Scope, scope.root = analyzer.root → scope.config = analyzer.config →
      detector.run tree scope = .ok (.ofFiles (scope.targets.filter holds) check))
    {file : SourceFile} (hfile : file ∈ (analyzer.sources tree).1) (hholds : holds file = true)
    {finding : Finding} (hfinding : finding ∈ check file) :
    finding.id ∈ (Commit.proposed (analyzer.outcomes tree none)).map Finding.id := by
  refine mem_ids_proposed (List.mem_flatMap.mpr ⟨_, List.mem_map_of_mem hdetector, ?_⟩)
  rw [Outcome.findings, hrun _ rfl rfl]
  refine List.mem_flatMap.mpr ⟨file, List.mem_filter.mpr ⟨?_, hholds⟩, hfinding⟩
  exact List.mem_filter.mpr ⟨hfile, rfl⟩

/-- No file is lost between the walk and the detectors that read import statements, but for a
script with one of two extensions.  Take any file of the project that can be read, that ignore
files do not exclude, and that has no skipped component.  What is found in it is proposed by every
run: its unused imports if it is a script, and if it is a source file the rules that it breaks, as
far as these are in force. -/
theorem proposed_of_file {root : Path} {config : Config} {extra : List Detector}
    {engine : PatternEngine}
    (hopen : Analyzer.open? tree root config extra engine = .ok analyzer) (hd : tree.HasDirectory)
    (hbase : tree.dirNames? root = some base) (hnames : ∀ name ∈ names, Tree.IsName name)
    (hfile : tree.top.at? (base ++ names) = some (.file content))
    (hread : tree.readText? (root.join (Tree.pathOf names)) = some text)
    (hkept : tree.ignores root base names = false)
    (hskip : ∀ name ∈ names, config.analysis.skipDirs.contains name = false) :
    let path := Tree.pathOf names
    let proposed := (Commit.proposed (analyzer.outcomes tree none)).map Finding.id
    (∀ now, (analyzer.run now none).exec tree =
      (commit analyzer.state now (analyzer.sources tree).2
        (analyzer.outcomes tree none)).exec tree) ∧
    (path.isScript = true →
      (path.hasExtensionIn ["mts", "cts"] = true → path.nameStartsWith ".env." = true) →
      ∀ finding ∈ Imports.checkFile ⟨path, text⟩, finding.id ∈ proposed) ∧
    (path.isSource = true →
      ∀ mined, Rules.build engine (Rules.load tree root config.analysis) = .ok mined →
        ∀ finding ∈ Rules.checkFile mined ⟨path, text⟩, finding.id ∈ proposed) := by
  intro path proposed
  obtain ⟨hroot, rfl, hconfig, -, hdetectors⟩ := spec_of_open? hopen
  rw [← hconfig] at hskip ⊢
  refine ⟨fun now => exec_run hroot now none, fun hscript hmodule finding hfinding => ?_,
    fun hsource mined hbuild finding hfinding => ?_⟩
  · have hmem := mem_sources hd hbase hnames hfile hread hkept hskip
      (Path.isAnalyzable_of_isScript hscript hmodule)
    exact mem_ids_of_mem_sources .unusedImports (fun file => file.path.isScript)
      (fun file => (Imports.checkFile file).toList) (by simp [hdetectors, Detector.standard])
      (fun _ _ _ => rfl) hmem hscript (Option.mem_toList.mpr hfinding)
  · have hmem := mem_sources hd hbase hnames hfile hread hkept hskip
      (Path.isAnalyzable_of_isSource hsource)
    refine mem_ids_of_mem_sources (.rules engine) (fun file => file.path.isSource)
      (Rules.checkFile mined) (by simp [hdetectors, Detector.standard]) ?_ hmem hsource hfinding
    intro scope hscopeRoot hscopeConfig
    rw [← hscopeRoot, ← hscopeConfig] at hbuild
    exact Rules.detectWith_of_build hbuild scope

end Analyzer

/-! ## 4. Projects at the top of a tree -/

namespace Sample

/-- A project at the top of a tree. -/
def top : Path := ⟨"/"⟩

def topAnalyzer (config : AnalysisConfig) : Analyzer where
  root := top
  config := config
  state := ({} : StateConfig).files top
  detectors := Detector.standard ++ []

/-- A path from the top of a tree, with the steps that it leads over. -/
structure Route where
  path : Path
  steps : List Tree.Step
  flaw?_eq_none : Tree.flaw? path = none := by decide
  isAbsolute : path.isAbsolute = true := by decide
  plainSteps_eq : Tree.plainSteps path.text = steps := by decide
  endsInSlash_eq : Tree.endsInSlash path.text = false := by decide

def topRoute : Route where
  path := top
  steps := []

/-! The files that are looked for in order to know what is ignored at the top. -/

def plainRoute : Route where
  path := ⟨"/.ignore"⟩
  steps := [.enter ".ignore"]

def trackedRoute : Route where
  path := ⟨"/.gitignore"⟩
  steps := [.enter ".gitignore"]

def repositoryRoute : Route where
  path := ⟨"/.git"⟩
  steps := [.enter ".git"]

def untrackedRoute : Route where
  path := ⟨"/.git/info/exclude"⟩
  steps := [.enter ".git", .enter "info", .enter "exclude"]

theorem ignoreFiles_top :
    let dir := top.join (Tree.pathOf [])
    dir.join IgnoreLevel.plainFile = plainRoute.path ∧
      dir.join IgnoreLevel.trackedFile = trackedRoute.path ∧
      dir.join IgnoreLevel.repositoryName = repositoryRoute.path ∧
      repositoryRoute.path.join IgnoreLevel.untrackedFile = untrackedRoute.path := by
  decide

section Top

variable {entries : List (String × Node)}

theorem Route.place_eq_ok (route : Route) {place : Tree.Place} :
    (Tree.flat entries).place true route.path = .ok place ↔
      (Tree.flat entries).resolve true Tree.mostLinks [] route.steps = .ok place := by
  have hstart : (Tree.flat entries).start route.path = [] := if_pos route.isAbsolute
  have hsteps : Tree.stepsOf route.path.text = route.steps := by
    rw [Tree.stepsOf, route.endsInSlash_eq, route.plainSteps_eq, if_neg Bool.false_ne_true,
      List.append_nil]
  rw [Tree.place_eq_ok, hstart, hsteps, and_iff_right route.flaw?_eq_none]

theorem place_top (entries : List (String × Node)) :
    (Tree.flat entries).place true top = .ok (.found [] (.dir entries)) :=
  topRoute.place_eq_ok.mpr Tree.resolve_nil

theorem isDir_top (entries : List (String × Node)) : (Tree.flat entries).isDir top = true :=
  Tree.isDir_eq_true.mpr ⟨_, _, place_top entries⟩

theorem dirNames?_top (entries : List (String × Node)) :
    (Tree.flat entries).dirNames? top = some [] :=
  Tree.dirNames?_eq_some.mpr ⟨_, place_top entries⟩

theorem open?_top (config : AnalysisConfig) (entries : List (String × Node)) :
    Analyzer.open? (Tree.flat entries) top { analysis := config } [] =
      .ok (topAnalyzer config) := by
  rw [Analyzer.open?, if_pos (isDir_top entries)]
  rfl

-- A path whose first name is free at the top leads to no file.
theorem Route.fileNames?_free (route : Route) {first : String} {rest : List Tree.Step}
    (hsteps : route.steps = .enter first :: rest)
    (hlength : ¬ Tree.longestName < first.utf8ByteSize) (hfree : entries.lookup first = none) :
    (Tree.flat entries).fileNames? route.path = none := by
  rw [Option.eq_none_iff_forall_ne_some]
  intro names hnames
  obtain ⟨content, hplace⟩ := Tree.fileNames?_eq_some.mp hnames
  rw [route.place_eq_ok, hsteps,
    Tree.resolve_enter_free (Tree.nodeOn_flat entries) hlength hfree] at hplace
  split at hplace <;> simp at hplace

/-- Without ignore files at the top none holds there. -/
theorem rootLevels_top (hplain : entries.lookup ".ignore" = none)
    (htracked : entries.lookup ".gitignore" = none) (hown : entries.lookup ".git" = none) :
    (Tree.flat entries).rootLevels top [] = [] := by
  obtain ⟨hplainPath, htrackedPath, hownPath, huntrackedPath⟩ := ignoreFiles_top
  have hempty : (IgnoreLevel.ofDir (Tree.flat entries) 0 (top.join (Tree.pathOf []))).isEmpty := by
    apply IgnoreLevel.isEmpty_ofDir <;> apply Tree.content?_eq_none
    · rw [hplainPath]
      exact plainRoute.fileNames?_free rfl (by decide) hplain
    · rw [htrackedPath]
      exact trackedRoute.fileNames?_free rfl (by decide) htracked
    · rw [hownPath]
      exact repositoryRoute.fileNames?_free rfl (by decide) hown
    · rw [hownPath, huntrackedPath]
      exact untrackedRoute.fileNames?_free rfl (by decide) hown
  rw [Tree.rootLevels, IgnoreLevel.under]
  exact if_pos hempty

theorem ignores_top (hplain : entries.lookup ".ignore" = none)
    (htracked : entries.lookup ".gitignore" = none) (hown : entries.lookup ".git" = none)
    (name : String) : (Tree.flat entries).ignores top [] [name] = false := by
  rw [Tree.ignores, rootLevels_top hplain htracked hown]
  rfl

-- Names lead from the top to what lies under them.
theorem Route.place_names (route : Route) {names : List String} {node : Node}
    (hsteps : route.steps = names.map .enter) (hnames : ∀ name ∈ names, Tree.IsName name)
    (hnode : ∀ target, node ≠ .link target) (hat : (Node.dir entries).at? names = some node) :
    (Tree.flat entries).place true route.path = .ok (.found names node) := by
  rw [route.place_eq_ok, hsteps]
  exact Tree.resolve_names hnames hnode hat

-- At most one file is left of those that the walk lists, so that there is nothing to sort.
theorem paths_top {config : AnalysisConfig} {files kept : List Path}
    (hfiles : (Tree.flat entries).files config.skipDirs false top = files)
    (hkept : (files.filter fun path =>
      path.isAnalyzable && !config.skipDirs.any path.hasComponent) = kept)
    (hlength : kept.length ≤ 1) : (topAnalyzer config).paths (Tree.flat entries) = kept := by
  have hpaths : (topAnalyzer config).paths (Tree.flat entries) =
      (((Tree.flat entries).files config.skipDirs false top).filter fun path =>
        path.isAnalyzable && !config.skipDirs.any path.hasComponent).mergeSort Path.le := rfl
  rw [hpaths, hfiles, hkept]
  match kept, hlength with
  | [], _ => exact List.mergeSort_nil
  | [path], _ => exact List.mergeSort_singleton path

end Top

/-- A script that imports a dated package and does not use it. -/
def momentFile : SourceFile :=
  ⟨Tree.pathOf ["a.ts"], "import moment from 'moment';\n"⟩

def momentRoute : Route where
  path := top.join momentFile.path
  steps := [.enter "a.ts"]

theorem proposed_moment :
    let tree := Tree.flat [("a.ts", .file (.text momentFile.content))]
    let proposed := (Commit.proposed ((topAnalyzer {}).outcomes tree none)).map Finding.id
    Analyzer.open? tree top {} [] = .ok (topAnalyzer {}) ∧
      tree.readText? (top.join momentFile.path) = some momentFile.content ∧
      tree.ignores top [] ["a.ts"] = false ∧ defaultIgnoredDirs.contains "a.ts" = false ∧
      (∃ finding, Imports.checkFile momentFile = some finding ∧ finding.id ∈ proposed) ∧
      ∃ finding ∈ Rules.checkFile (Rules.load tree top {}) momentFile, finding.id ∈ proposed := by
  intro tree proposed
  have hopen : Analyzer.open? tree top {} [] = .ok (topAnalyzer {}) := open?_top {} _
  have hnames : ∀ name ∈ ["a.ts"], Tree.IsName name := by
    rw [List.forall_mem_singleton]
    constructor <;> decide
  have hread : tree.readText? (top.join momentFile.path) = some momentFile.content :=
    Tree.readText?_of_place (momentRoute.place_names rfl hnames (by simp) rfl)
  have hkept : tree.ignores top [] ["a.ts"] = false := ignores_top rfl rfl rfl "a.ts"
  obtain ⟨-, himports, hrules⟩ := Analyzer.proposed_of_file hopen (Tree.hasDirectory_flat _)
    (dirNames?_top _) hnames rfl hread hkept (by decide)
  refine ⟨hopen, hread, hkept, by decide, ?_, ?_⟩
  · have hunused : (Imports.checkFile momentFile).isSome := by decide +kernel
    obtain ⟨finding, hfinding⟩ := Option.isSome_iff_exists.mp hunused
    exact ⟨finding, hfinding, himports (by decide) (by decide) finding hfinding⟩
  · have hdated : (Rules.substitutions.findSome? fun dated =>
        (Rules.importLine? dated.1 momentFile.content.toList).map
          (Rules.datedFinding momentFile.path dated.1 dated.2)).isSome := by
      decide
    obtain ⟨finding, hfinding⟩ := Option.isSome_iff_exists.mp hdated
    have hmem : finding ∈ Rules.checkFile (Rules.load tree top {}) momentFile :=
      List.mem_append_left _ (Option.mem_toList.mpr hfinding)
    exact ⟨finding, hmem, hrules (by decide) _ (Rules.build_default _) finding hmem⟩

/-- A script with one of the two extensions. -/
def moduleFile : SourceFile :=
  ⟨Tree.pathOf ["a.mts"], "import \x7b x \x7d from 'y';\n"⟩

def moduleRoute : Route where
  path := top.join moduleFile.path
  steps := [.enter "a.mts"]

/-- Scripts with one of two extensions are lost: the detector of unused imports finds something in
such a file, but the file is not worth reading. -/
theorem not_proposed_module :
    let tree := Tree.flat [("a.mts", .file (.text moduleFile.content))]
    Analyzer.open? tree top {} [] = .ok (topAnalyzer {}) ∧
      tree.readText? (top.join moduleFile.path) = some moduleFile.content ∧
      tree.ignores top [] ["a.mts"] = false ∧ defaultIgnoredDirs.contains "a.mts" = false ∧
      moduleFile.path.isScript = true ∧ (∃ finding, Imports.checkFile moduleFile = some finding) ∧
      Commit.proposed ((topAnalyzer {}).outcomes tree none) = [] := by
  intro tree
  have hnames : ∀ name ∈ ["a.mts"], Tree.IsName name := by
    rw [List.forall_mem_singleton]
    constructor <;> decide
  have hread : tree.readText? (top.join moduleFile.path) = some moduleFile.content :=
    Tree.readText?_of_place (moduleRoute.place_names rfl hnames (by simp) rfl)
  have hfiles : tree.files defaultIgnoredDirs false top = [moduleFile.path] := by
    rw [Tree.files_eq _ (dirNames?_top _), rootLevels_top rfl rfl rfl]
    rfl
  have hpaths : (topAnalyzer {}).paths tree = [] :=
    paths_top hfiles (by decide) (Nat.zero_le 1)
  have hsources : ((topAnalyzer {}).sources tree).1 = [] := by
    rw [Analyzer.sources, hpaths, loadSources_fst]
    rfl
  have hproposed : Commit.proposed ((topAnalyzer {}).outcomes tree none) = [] := by
    rw [Analyzer.outcomes_eq rfl, hsources]
    have hclones : (Clones.detect ⟨top, [], none, {}⟩).findings = [] := by decide +kernel
    have hfindings : (Analyzer.outcomesOn {} ⟨top, [], none, {}⟩
        (Rules.documents tree top {})).flatMap Outcome.findings = [] := by
      rw [Analyzer.outcomesOn, Rules.detectWith_of_build (Rules.build_default _)]
      exact congrArg (· ++ _) hclones
    rw [Commit.proposed]
    exact congrArg (Commit.distinct []) hfindings
  exact ⟨open?_top {} _, hread, ignores_top rfl rfl rfl _, by decide, by decide,
    Option.isSome_iff_exists.mp (by decide +kernel), hproposed⟩

end Sample

end Scrutiny
