import Scrutiny.Proofs.Analysis.Collection
import Scrutiny.Proofs.Tree.Filling

/-!
Analysing a project twice.  All that the first run leaves in the tree is the worklist's file and the
directories above it.  As long as the second run reads nothing of that but the worklist, it proposes
the same findings, puts nothing new on the worklist, and changes nothing of it but the time of the
last analysis.
-/

namespace Scrutiny

/-! ## 1. What a run reads -/

namespace Analyzer

/-- The files that a run looks for besides those that it analyses and the worklist's: rule
documents, the preference log and ignore files. -/
def consulted (analyzer : Analyzer) (tree : Tree) : List Path :=
  analyzer.config.ruleDocuments.map analyzer.root.join ++
    (analyzer.state.preferences.path ::
      (tree.dirNames? analyzer.root).elim []
        (tree.ignoreSources analyzer.config.skipDirs analyzer.root))

/-- Nothing that a run leaves in the tree is read by the next run, but for the worklist.  The
worklist's file is neither analysed nor consulted, and no file that is consulted comes within reach
through the directories that the run made. -/
structure Undisturbed (analyzer : Analyzer) (tree after : Tree) : Prop where
  uncollected : ∀ base names, after.dirNames? analyzer.root = some base →
    after.fileNames? analyzer.state.worklist.path = some (base ++ names) →
      Tree.pathOf names ∉ analyzer.paths after
  unread : ∀ path ∈ analyzer.consulted tree,
    after.fileNames? path ≠ after.fileNames? analyzer.state.worklist.path
  reach : ∀ path ∈ analyzer.consulted tree, after.isFile path = true → tree.isFile path = true

end Analyzer

theorem loadSources_congr {tree other : Tree} {root : Path} {paths : List Path}
    (h : ∀ path ∈ paths, other.readText? (root.join path) = tree.readText? (root.join path))
    (stats : AnalysisStats) :
    loadSources other root paths stats = loadSources tree root paths stats := by
  induction paths generalizing stats with
  | nil => rfl
  | cons path paths ih =>
    rw [List.forall_mem_cons] at h
    rw [loadSources_cons, loadSources_cons, h.1]
    cases tree.readText? (root.join path) with
    | none => exact ih h.2 _
    | some content => simp only [ih h.2]

/-! ## 2. What the next run reads -/

namespace Analyzer

section Again

variable {analyzer : Analyzer} {tree after : Tree} {target : List String}

theorem dirNames?_of_filled (hfilled : tree.Filled target after) (hd : tree.HasDirectory)
    {root : Path} {base : List String} (hbase : tree.dirNames? root = some base) :
    after.dirNames? root = some base := by
  obtain ⟨entries, hplace⟩ := Tree.dirNames?_eq_some.mp hbase
  have hdir := hfilled.keepsWays.dirs base (Node.view_eq_dir.mpr ⟨_, Tree.at?_base hd hbase⟩)
  obtain ⟨others, hothers⟩ := Node.view_eq_dir.mp hdir
  exact Tree.dirNames?_eq_some.mpr
    ⟨others, hfilled.keepsWays.place hd hplace (by simp) hothers⟩

theorem exists_dirNames? (hroot : tree.isDir analyzer.root = true) :
    ∃ base, tree.dirNames? analyzer.root = some base := by
  obtain ⟨base, entries, hplace⟩ := Tree.isDir_eq_true.mp hroot
  exact ⟨base, Tree.dirNames?_eq_some.mpr ⟨entries, hplace⟩⟩

variable (hfilled : tree.Filled target after) (hd : tree.HasDirectory)
  (hstore : after.fileNames? analyzer.state.worklist.path = some target)
  (hapart : analyzer.Undisturbed tree after)

include hfilled hd hstore hapart

theorem content?_of_mem_consulted {path : Path} (h : path ∈ analyzer.consulted tree) :
    after.content? path = tree.content? path :=
  hfilled.content? hd (hapart.reach path h) fun htarget =>
    hapart.unread path h (htarget.trans hstore.symm)

theorem readText?_of_mem_consulted {path : Path} (h : path ∈ analyzer.consulted tree) :
    after.readText? path = tree.readText? path := by
  rw [Tree.readText?, Tree.readText?, content?_of_mem_consulted hfilled hd hstore hapart h]

/-- The next run analyses the same files. -/
theorem paths_again (hroot : tree.isDir analyzer.root = true) :
    analyzer.paths after = analyzer.paths tree := by
  obtain ⟨base, hbase⟩ := exists_dirNames? hroot
  have hbase' := dirNames?_of_filled hfilled hd hbase
  have hsources : ∀ path ∈ tree.ignoreSources analyzer.config.skipDirs analyzer.root base,
      after.content? path = tree.content? path := by
    intro path hpath
    refine content?_of_mem_consulted hfilled hd hstore hapart ?_
    rw [consulted, hbase]
    exact List.mem_append_right _ (List.mem_cons_of_mem _ hpath)
  have hsame := hfilled.sameBut_filesAmong (Node.view_eq_dir.mpr ⟨_, Tree.at?_base hd hbase⟩)
    (after.pruning analyzer.config.skipDirs analyzer.root base)
    (after.rootLevels analyzer.root base)
  rw [Tree.filesAmong_congr_sources hsources] at hsame
  rw [paths, paths, Tree.files_eq _ hbase, Tree.files_eq _ hbase', List.filter_map, List.filter_map,
    hsame.filter_eq]
  -- the worklist's file may be among those listed, but it is not kept
  intro names hnames htarget
  rw [← Bool.not_eq_true]
  intro hkept
  refine hapart.uncollected base names hbase' (by rw [hstore, beq_iff_eq.mp htarget]) ?_
  rw [paths, List.mem_mergeSort, List.mem_filter, Tree.files_eq _ hbase']
  exact ⟨List.mem_map_of_mem hnames, hkept⟩

theorem sources_again (horderly : tree.top.IsOrderly) (hroot : tree.isDir analyzer.root = true) :
    analyzer.sources after = analyzer.sources tree := by
  have hpaths := paths_again hfilled hd hstore hapart hroot
  obtain ⟨base, hbase⟩ := exists_dirNames? hroot
  have hbase' := dirNames?_of_filled hfilled hd hbase
  rw [sources, sources, hpaths]
  refine loadSources_congr (fun path hpath => ?_) _
  have hfiles : path ∈ tree.files analyzer.config.skipDirs false analyzer.root := by
    rw [paths, List.mem_mergeSort, List.mem_filter] at hpath
    exact hpath.1
  obtain ⟨names, content, rfl, hne, hnames, hat⟩ := Tree.at?_of_mem_files hd horderly hbase hfiles
  have htarget : base ++ names ≠ target := by
    rintro rfl
    exact hapart.uncollected base names hbase' hstore (hpaths ▸ hpath)
  have hbefore := Tree.fileNames?_join_pathOf hd hbase hnames hne hat
  have hafter := Tree.fileNames?_join_pathOf (hfilled.keepsWays.hasDirectory hd) hbase' hnames hne
    ((hfilled.at?_eq_file htarget).mpr hat)
  have hcontent : after.content? (analyzer.root.join (Tree.pathOf names)) =
      tree.content? (analyzer.root.join (Tree.pathOf names)) := by
    refine hfilled.content? hd (fun hfile => ?_) ?_
    · rwa [Tree.isFile_eq_isSome, hbefore, ← hafter, ← Tree.isFile_eq_isSome]
    · rw [hafter]
      split
      · simpa using htarget
      · simp
  rw [Tree.readText?, Tree.readText?, hcontent]

theorem outcomes_again (horderly : tree.top.IsOrderly) (hroot : tree.isDir analyzer.root = true)
    {engine : PatternEngine} (hdetectors : analyzer.detectors = Detector.standard engine)
    (changed : Option PathSet) :
    analyzer.outcomes after changed = analyzer.outcomes tree changed := by
  have hdocuments : Rules.documents after analyzer.root analyzer.config =
      Rules.documents tree analyzer.root analyzer.config := by
    refine List.filterMap_congr fun path hpath => ?_
    rw [readText?_of_mem_consulted hfilled hd hstore hapart]
    exact List.mem_append_left _ (List.mem_map_of_mem hpath)
  rw [outcomes_eq hdetectors, outcomes_eq hdetectors, hdocuments,
    sources_again hfilled hd hstore hapart horderly hroot]

theorem entries_again :
    analyzer.state.preferences.entries after = analyzer.state.preferences.entries tree := by
  have hmem : analyzer.state.preferences.path ∈ analyzer.consulted tree :=
    List.mem_append_right _ List.mem_cons_self
  have hread := readText?_of_mem_consulted hfilled hd hstore hapart hmem
  rw [PreferenceFile.entries, PreferenceFile.entries, PreferenceFile.load, PreferenceFile.load,
    hread]

end Again

/-! ## 3. Runs -/

section Runs

variable {analyzer : Analyzer} {tree after : Tree} {now : Instant}

/-- What a run adds to the worklist. -/
def records (analyzer : Analyzer) (tree : Tree) (now : Instant) : List Criticism :=
  (Commit.kept (analyzer.state.preferences.entries tree)
    (Commit.proposed (analyzer.outcomes tree none))).map fun finding => finding.record now

theorem isValid_of_mem_records (hnow : now.isValid = true) :
    ∀ criticism ∈ analyzer.records tree now, criticism.createdAt.isValid = true := by
  rw [records, List.forall_mem_map]
  exact fun _ _ => hnow

theorem exec_analyzeProject_eq_ok (hroot : tree.isDir analyzer.root = true)
    {report : AnalysisReport} :
    (analyzer.analyzeProject now).exec tree = (.ok report, after) ↔
      ∃ stored between,
        (analyzer.state.worklist.add (analyzer.records tree now)).exec tree =
          (.ok stored, between) ∧
        (analyzer.state.worklist.save
          ((analyzer.state.worklist.load between).stamp now)).exec between = (.ok (), after) ∧
        report = Commit.report (analyzer.state.preferences.entries tree) (analyzer.sources tree).2
          (analyzer.outcomes tree none) stored := by
  have hrun : ∀ stored between,
      (analyzer.state.worklist.add (analyzer.records tree now)).exec tree = (.ok stored, between) →
        (analyzer.run now none).exec tree = (.ok (Commit.report
          (analyzer.state.preferences.entries tree) (analyzer.sources tree).2
          (analyzer.outcomes tree none) stored), between) := by
    intro stored between hadd
    rw [exec_run hroot]
    exact exec_commit_of_add hadd
  rw [analyzeProject, TreeStep.exec_bind_eq_ok]
  constructor
  · rintro ⟨given, between, hgiven, hrest⟩
    obtain ⟨stored, hadd, hreport⟩ :=
      exec_commit ((exec_run hroot now none).symm.trans hgiven)
    obtain ⟨_, stamped, hstamp, hpure⟩ := TreeStep.exec_bind_eq_ok.mp hrest
    obtain ⟨rfl, rfl⟩ := TreeStep.exec_pure_eq_ok.mp hpure
    rw [TreeStep.exec_adapt_eq_ok, WorklistFile.exec_stamp] at hstamp
    exact ⟨stored, between, hadd, hstamp, hreport⟩
  · rintro ⟨stored, between, hadd, hsave, rfl⟩
    rw [← WorklistFile.exec_stamp, ← TreeStep.exec_adapt_eq_ok] at hsave
    exact ⟨_, between, hrun stored between hadd,
      TreeStep.exec_bind_eq_ok.mpr ⟨(), after, hsave, rfl⟩⟩

/-- What a run that succeeds leaves: it fills the tree with the worklist's file, which holds the
worklist with the new records and the time. -/
theorem spec_of_analyzeProject (hd : tree.HasDirectory) (hnow : now.isValid = true)
    (hroot : tree.isDir analyzer.root = true) {report : AnalysisReport}
    (h : (analyzer.analyzeProject now).exec tree = (.ok report, after)) :
    let worklist := analyzer.state.worklist.load tree
    report = Commit.report (analyzer.state.preferences.entries tree) (analyzer.sources tree).2
        (analyzer.outcomes tree none) (worklist.countNew (analyzer.records tree now)) ∧
      (∃ target, tree.Filled target after ∧
        after.fileNames? analyzer.state.worklist.path = some target) ∧
      after.readText? analyzer.state.worklist.path =
        some (((worklist.insertAll (analyzer.records tree now)).stamp now).text ++ "\n") := by
  intro worklist
  obtain ⟨stored, between, hadd, hsave, rfl⟩ := (exec_analyzeProject_eq_ok hroot).mp h
  have hload := WorklistFile.load_of_add hd (isValid_of_mem_records hnow) hadd
  rw [hload] at hsave
  obtain ⟨rfl, ⟨-, rfl⟩ | hfirst⟩ := WorklistFile.exec_add hadd
  · exact ⟨rfl, Tree.exists_filled_of_saveText hd hsave, WorklistFile.readText?_of_save hd hsave⟩
  · obtain ⟨target, hfilled, hnames⟩ := Tree.exists_filled_of_saveText hd hfirst
    obtain ⟨-, hafter⟩ := hfilled.saveText hd hnames hsave
    exact ⟨rfl, ⟨target, hafter⟩,
      WorklistFile.readText?_of_save (hfilled.keepsWays.hasDirectory hd) hsave⟩

/-- A run succeeds where the worklist's file is. -/
theorem exists_exec_analyzeProject (hd : tree.HasDirectory) (hnow : now.isValid = true)
    (hroot : tree.isDir analyzer.root = true) {target : List String}
    (hstore : tree.fileNames? analyzer.state.worklist.path = some target) :
    ∃ report after, (analyzer.analyzeProject now).exec tree = (.ok report, after) := by
  have hvalid : ∀ criticism ∈ analyzer.records tree now, criticism.createdAt.isValid = true :=
    isValid_of_mem_records hnow
  obtain ⟨between, hadd, hd', hstore', -⟩ := WorklistFile.exec_add_of_fileNames? hd hstore hvalid
  obtain ⟨after, hsave, -⟩ := WorklistFile.exec_save_of_fileNames? hd' hstore'
    (Worklist.isDated_stamp (WorklistFile.isDated_load analyzer.state.worklist between) hnow)
  exact ⟨_, after, (exec_analyzeProject_eq_ok hroot).mpr ⟨_, between, hadd, hsave, rfl⟩⟩

end Runs

/-- To analyse a project again changes nothing.  Take a run that succeeds, in a tree that it does
not disturb for the next.  The next run succeeds as well and reports the same, but for what it
stores, which is nothing.  The worklist's file then holds the same worklist with another time. -/
theorem analyzeProject_again {analyzer : Analyzer} {tree after : Tree} {root : Path}
    {config : Config} {engine : PatternEngine} {now later : Instant} {first : AnalysisReport}
    (hopen : Analyzer.open? tree root config [] engine = .ok analyzer) (hd : tree.HasDirectory)
    (horderly : tree.top.IsOrderly) (hnow : now.isValid = true) (hlater : later.isValid = true)
    (hfirst : (analyzer.analyzeProject now).exec tree = (.ok first, after))
    (hapart : analyzer.Undisturbed tree after) :
    let file := analyzer.state.worklist
    ∃ final, (analyzer.analyzeProject later).exec after =
        (.ok { first with stored := 0 }, final) ∧
      file.load final = { file.load after with lastAnalysis := some later } ∧
      after.readText? file.path = some ((file.load after).text ++ "\n") ∧
      final.readText? file.path = some ((file.load final).text ++ "\n") := by
  intro file
  obtain ⟨hroot, rfl, -, -, hdetectors⟩ := Analyzer.spec_of_open? hopen
  obtain ⟨rfl, ⟨target, hfilled, hstore⟩, htext⟩ := spec_of_analyzeProject hd hnow hroot hfirst
  have hd' := hfilled.keepsWays.hasDirectory hd
  have hroot' : after.isDir analyzer.root = true := by
    obtain ⟨base, hbase⟩ := exists_dirNames? hroot
    obtain ⟨entries, hplace⟩ :=
      Tree.dirNames?_eq_some.mp (dirNames?_of_filled hfilled hd hbase)
    exact Tree.isDir_eq_true.mpr ⟨base, entries, hplace⟩
  -- the second run succeeds, and it commits the same
  obtain ⟨second, final, hsecond⟩ := exists_exec_analyzeProject hd' hlater hroot' hstore
  obtain ⟨rfl, -, htext'⟩ := spec_of_analyzeProject hd' hlater hroot' hsecond
  have houtcomes := outcomes_again hfilled hd hstore hapart horderly hroot
    (hdetectors.trans (List.append_nil _)) none
  have hentries := entries_again hfilled hd hstore hapart
  have hsources := sources_again hfilled hd hstore hapart horderly hroot
  have hrecords : analyzer.records after later = analyzer.records tree later := by
    rw [records, records, hentries, houtcomes]
  -- what was added is there, so that adding it again changes nothing
  let noted := ((file.load tree).insertAll (analyzer.records tree now)).stamp now
  have hdated : noted.IsDated :=
    Worklist.isDated_stamp (Worklist.isDated_insertAll (WorklistFile.isDated_load file tree)
      (isValid_of_mem_records hnow)) hnow
  have hload : file.load after = noted := WorklistFile.load_of_readText? hdated htext
  obtain ⟨hinsert, hcount⟩ : noted.insertAll (analyzer.records tree later) = noted ∧
      noted.countNew (analyzer.records tree later) = 0 :=
    Worklist.insertAll_record_again (Commit.nodup_kept _ _) now later
  rw [hrecords, hload, hinsert] at htext'
  rw [hrecords, hload, hcount, hentries, hsources, houtcomes] at hsecond
  have hload' : file.load final = noted.stamp later :=
    WorklistFile.load_of_readText? (Worklist.isDated_stamp hdated hlater) htext'
  rw [← hload'] at htext'
  rw [hload]
  exact ⟨final, hsecond, hload', htext, htext'⟩

end Analyzer

/-! ## 4. A project with a rule -/

namespace Sample

def sourceFile : SourceFile :=
  ⟨Tree.pathOf ["a.ts"], "import 'foo';\n"⟩

def ruleText : String :=
  "Never use foo.\n"

def ruleEntries : List (String × Node) :=
  [("a.ts", .file (.text sourceFile.content)), ("RULES.md", .file (.text ruleText))]

/-- The project before its first analysis. -/
def fresh : Tree :=
  .flat ruleEntries

/-- The directory of the worklist's file, which holds the text. -/
def stateDir (text : String) : Node :=
  .dir [("criticisms.json", .file (.text text))]

/-- The project after an analysis. -/
def analysed (text : String) : Tree :=
  .flat (ruleEntries ++ [(".critique", stateDir text)])

/-- The analyzer that reads rules from one document. -/
def ruleAnalyzer (document : Path) : Analyzer :=
  topAnalyzer { ruleDocuments := [document] }

def storePath : Path := ⟨"/.critique/criticisms.json"⟩

def logPath : Path := ⟨"/.critique/preferences.md"⟩

def stateRoute : Route where
  path := ⟨"/.critique"⟩
  steps := [.enter ".critique"]

def storeRoute : Route where
  path := storePath
  steps := [.enter ".critique", .enter "criticisms.json"]

def logRoute : Route where
  path := logPath
  steps := [.enter ".critique", .enter "preferences.md"]

def sourceRoute : Route where
  path := top.join sourceFile.path
  steps := [.enter "a.ts"]

theorem state_ruleAnalyzer (document : Path) :
    (ruleAnalyzer document).state = ⟨⟨storePath⟩, ⟨logPath⟩⟩ := by
  have hstore : ({} : StateConfig).criticismsPath top = storePath := by decide
  have hlog : ({} : StateConfig).preferencesPath top = logPath := by decide
  exact congrArg₂ (fun store log => StateFiles.mk ⟨store⟩ ⟨log⟩) hstore hlog

theorem isName_sample : ∀ name ∈ [".critique", "criticisms.json", "a.ts", "RULES.md"],
    Tree.IsName name := by
  simp only [List.forall_mem_cons]
  refine ⟨?_, ?_, ?_, ?_, by simp⟩ <;> constructor <;> decide

theorem isOrderly_fresh : fresh.top.IsOrderly := by
  have hnames : ∀ name ∈ ruleEntries.map Prod.fst, Tree.IsName name := fun name hname =>
    isName_sample name (List.mem_append_right [".critique", "criticisms.json"] hname)
  refine Node.isOrderly_dir (by decide) fun entry hentry =>
    ⟨hnames _ (List.mem_map_of_mem hentry), ?_⟩
  simp only [ruleEntries, List.mem_cons, List.not_mem_nil, or_false] at hentry
  rcases hentry with rfl | rfl <;> exact Node.isOrderly_file _

/-! ### Its state files -/

theorem resolve_stateDir (text : String) (links : Nat) (rest : List Tree.Step) :
    (analysed text).resolve true links [] (.enter ".critique" :: rest) =
      (analysed text).resolve true links [(".critique", stateDir text)] rest :=
  Tree.resolve_enter_node (Tree.nodeOn_flat _) (by decide) rfl (by simp [stateDir])

theorem fileNames?_store (text : String) :
    (analysed text).fileNames? storePath = some [".critique", "criticisms.json"] := by
  have hnames : ∀ name ∈ [".critique", "criticisms.json"], Tree.IsName name :=
    fun name hname => isName_sample name (List.mem_append_left ["a.ts", "RULES.md"] hname)
  exact Tree.fileNames?_eq_some.mpr
    ⟨.text text, storeRoute.place_names rfl hnames (by simp) rfl⟩

theorem fileNames?_log (text : String) : (analysed text).fileNames? logPath = none := by
  have hdir : (analysed text).nodeOn [(".critique", stateDir text)] =
      .dir [("criticisms.json", .file (.text text))] := rfl
  have hplace : (analysed text).place true logPath =
      .ok (.free [".critique"] "preferences.md") := by
    refine logRoute.place_eq_ok.mpr ((resolve_stateDir text _ _).trans ?_)
    rw [Tree.resolve_enter_free hdir (by decide) rfl]
    rfl
  rw [Tree.fileNames?, hplace]

/-- The first save makes the directory and writes the file. -/
theorem exec_saveText_fresh (text : String) :
    (Tree.saveText storePath text).exec fresh = (.ok (), analysed text) := by
  let made : Tree := .flat (ruleEntries ++ [(".critique", .dir [])])
  have hparent : storePath.parent? = some stateRoute.path := by decide
  have hmakeDir : fresh.makeDir stateRoute.path = .ok made := by
    rw [Tree.makeDir, Tree.placeOf, stateRoute.flaw?_eq_none, stateRoute.plainSteps_eq,
      stateRoute.isAbsolute, fresh]
    dsimp only [stateRoute]
    rw [if_pos rfl, Tree.resolve_enter_free (Tree.nodeOn_flat ruleEntries) (by decide) rfl]
    rfl
  have hmakeDirs : fresh.makeDirs stateRoute.path = (.ok (), made) := by
    rw [Tree.makeDirs]
    unfold Tree.makeDirsWithin
    rw [hmakeDir]
    rfl
  have hplace : made.place true storePath = .ok (.free [".critique"] "criticisms.json") := by
    have hdir : (ruleEntries ++ [(".critique", Node.dir [])]).lookup ".critique" = some (.dir []) :=
      rfl
    have hempty : made.nodeOn [(".critique", .dir [])] = .dir [] := rfl
    refine storeRoute.place_eq_ok.mpr ?_
    dsimp only [storeRoute]
    rw [Tree.resolve_enter_node (Tree.nodeOn_flat _) (by decide) hdir (by simp),
      Tree.resolve_enter_free hempty (by decide) rfl]
    rfl
  have hwrite : made.writeText storePath text = .ok (analysed text) := by
    have hend : Tree.endsInSlash storePath.text = false := storeRoute.endsInSlash_eq
    rw [Tree.writeText, Tree.writeFile, Tree.placeToWrite, hend]
    dsimp only
    rw [hplace]
    rfl
  simp [Tree.saveText, hparent, TreeStep.exec_bind, hmakeDirs, hwrite]

theorem exec_saveText_analysed (old text : String) :
    (Tree.saveText storePath text).exec (analysed old) = (.ok (), analysed text) :=
  Tree.exec_saveText_of_fileNames? (Tree.hasDirectory_flat _) (fileNames?_store old) text

/-- The first run succeeds, whatever it finds. -/
theorem exists_exec_fresh (document : Path) : ∃ first text,
    ((ruleAnalyzer document).analyzeProject epoch).exec fresh = (.ok first, analysed text) := by
  let file := (ruleAnalyzer document).state.worklist
  have hfile : file = ⟨storePath⟩ := congrArg StateFiles.worklist (state_ruleAnalyzer document)
  have hroot : fresh.isDir (ruleAnalyzer document).root = true := isDir_top _
  have hsave : ∀ worklist : Worklist,
      (file.save worklist).exec fresh = (.ok (), analysed (worklist.text ++ "\n")) := by
    rw [hfile]
    exact fun worklist => exec_saveText_fresh _
  have hsaveAgain : ∀ (old : String) (worklist : Worklist),
      (file.save worklist).exec (analysed old) = (.ok (), analysed (worklist.text ++ "\n")) := by
    rw [hfile]
    exact fun old worklist => exec_saveText_analysed old _
  by_cases hnone : (ruleAnalyzer document).records fresh epoch = []
  · have hadd : (file.add ((ruleAnalyzer document).records fresh epoch)).exec fresh =
        (.ok 0, fresh) := by
      rw [hnone]
      exact WorklistFile.exec_add_nil
    exact ⟨_, _, (Analyzer.exec_analyzeProject_eq_ok hroot).mpr ⟨0, fresh, hadd, hsave _, rfl⟩⟩
  · have hadd := WorklistFile.exec_add_of_ne_nil hnone (hsave _)
    exact ⟨_, _, (Analyzer.exec_analyzeProject_eq_ok hroot).mpr
      ⟨_, _, hadd, hsaveAgain _ _, rfl⟩⟩

/-! ### What is read of it -/

-- The directory of the worklist's file is skipped, and a document is no source file.
theorem paths_rule {entries : List (String × Node)} (document : Path)
    (hfiles : (Tree.flat entries).files defaultIgnoredDirs false top =
      [sourceFile.path, Tree.pathOf ["RULES.md"]]) :
    (ruleAnalyzer document).paths (.flat entries) = [sourceFile.path] := by
  have hkept : ([sourceFile.path, Tree.pathOf ["RULES.md"]].filter fun path =>
      path.isAnalyzable && !defaultIgnoredDirs.any path.hasComponent) = [sourceFile.path] := by
    decide
  exact paths_top hfiles hkept (Nat.le_refl 1)

theorem paths_fresh (document : Path) :
    (ruleAnalyzer document).paths fresh = [sourceFile.path] := by
  apply paths_rule
  rw [Tree.files_eq _ (dirNames?_top _), rootLevels_top rfl rfl rfl]
  rfl

theorem paths_analysed (document : Path) (text : String) :
    (ruleAnalyzer document).paths (analysed text) = [sourceFile.path] := by
  apply paths_rule
  rw [Tree.files_eq _ (dirNames?_top _), rootLevels_top rfl rfl rfl]
  rfl

/-- The files that are looked for besides the document. -/
def otherFiles : List Path :=
  [logPath, plainRoute.path, trackedRoute.path, repositoryRoute.path, untrackedRoute.path]

theorem consulted_rule {entries : List (String × Node)} (document : Path)
    (hlevels : (Tree.flat entries).rootLevels top [] = [])
    (hbelow : Node.dirsAmong ((Tree.flat entries).pruning defaultIgnoredDirs top []) [] []
      entries = [])
    (hown : entries.lookup ".git" = none) :
    (ruleAnalyzer document).consulted (.flat entries) = top.join document :: otherFiles := by
  have hvisited : (Tree.flat entries).visited defaultIgnoredDirs top [] =
      [top.join (Tree.pathOf [])] := by
    have hentries : (Tree.flat entries).entriesAt false [] = entries := rfl
    rw [Tree.visited, hlevels, hentries, hbelow]
    rfl
  have hsources : IgnoreLevel.sources (Tree.flat entries) (top.join (Tree.pathOf [])) =
      [plainRoute.path, trackedRoute.path, repositoryRoute.path, untrackedRoute.path] := by
    obtain ⟨hplainPath, htrackedPath, hownPath, huntrackedPath⟩ := ignoreFiles_top
    have hcontent : (Tree.flat entries).content? repositoryRoute.path = none :=
      Tree.content?_eq_none (repositoryRoute.fileNames?_free rfl (by decide) hown)
    unfold IgnoreLevel.sources IgnoreLevel.commonFile? IgnoreLevel.repositoryDir?
    rw [hplainPath, htrackedPath, hownPath, hcontent]
    dsimp only [Option.bind_none, Option.map_some]
    rw [huntrackedPath]
    rfl
  have hroot : (ruleAnalyzer document).root = top := rfl
  have hskip : (ruleAnalyzer document).config.skipDirs = defaultIgnoredDirs := rfl
  rw [Analyzer.consulted, hroot, dirNames?_top, Option.elim_some, Tree.ignoreSources, hskip,
    hvisited, List.flatMap_singleton, hsources, state_ruleAnalyzer]
  rfl

theorem consulted_fresh (document : Path) :
    (ruleAnalyzer document).consulted fresh = top.join document :: otherFiles :=
  consulted_rule document (rootLevels_top rfl rfl rfl) rfl rfl

theorem consulted_analysed (document : Path) (text : String) :
    (ruleAnalyzer document).consulted (analysed text) = top.join document :: otherFiles :=
  consulted_rule document (rootLevels_top rfl rfl rfl) rfl rfl

theorem fileNames?_otherFiles (text : String) :
    ∀ path ∈ otherFiles, (analysed text).fileNames? path = none := by
  have hlookup : ∀ name ∈ [".ignore", ".gitignore", ".git"],
      (ruleEntries ++ [(".critique", stateDir text)]).lookup name = none := by
    simp [ruleEntries]
  have hplain := hlookup ".ignore" (by simp)
  have htracked := hlookup ".gitignore" (by simp)
  have hown := hlookup ".git" (by simp)
  simp only [otherFiles, List.forall_mem_cons]
  exact ⟨fileNames?_log text, plainRoute.fileNames?_free rfl (by decide) hplain,
    trackedRoute.fileNames?_free rfl (by decide) htracked,
    repositoryRoute.fileNames?_free rfl (by decide) hown,
    untrackedRoute.fileNames?_free rfl (by decide) hown, by simp⟩

/-- The worklist's file is not analysed. -/
theorem uncollected_rule {text : String} {base names : List String}
    (hbase : (analysed text).dirNames? top = some base)
    (hstore : (analysed text).fileNames? storePath = some (base ++ names)) :
    Tree.pathOf names ∉ [sourceFile.path] := by
  have hroot : base = [] := by
    rw [analysed, dirNames?_top, Option.some.injEq] at hbase
    exact hbase.symm
  have hnames : names = [".critique", "criticisms.json"] := by
    rw [fileNames?_store, hroot, List.nil_append, Option.some.injEq] at hstore
    exact hstore.symm
  rw [hnames]
  decide

/-- Nothing that is looked for leads to the worklist's file. -/
theorem unread_rule {document : Path} {text : String}
    (hdocument : (analysed text).fileNames? (top.join document) = some ["RULES.md"]) :
    ∀ path ∈ top.join document :: otherFiles,
      (analysed text).fileNames? path ≠ (analysed text).fileNames? storePath := by
  rw [fileNames?_store, List.forall_mem_cons, hdocument]
  refine ⟨by decide, fun path hpath => ?_⟩
  rw [fileNames?_otherFiles text path hpath]
  exact (Option.some_ne_none _).symm

/-! ### What is found -/

/-- The findings come from one file and from the document, if it can be read. -/
theorem length_proposed {document : Path} {entries : List (String × Node)}
    (hpaths : (ruleAnalyzer document).paths (.flat entries) = [sourceFile.path])
    (hfile : entries.lookup "a.ts" = some (.file (.text sourceFile.content))) :
    (Commit.proposed ((ruleAnalyzer document).outcomes (.flat entries) none)).length =
      (Commit.proposed (Analyzer.outcomesOn {}
        ⟨top, [sourceFile], none, { ruleDocuments := [document] }⟩
        (((Tree.flat entries).readText? (top.join document)).map fun text =>
          (document, text)).toList)).length := by
  have hnames : ∀ name ∈ ["a.ts"], Tree.IsName name :=
    List.forall_mem_singleton.mpr (isName_sample "a.ts" (by simp))
  have hat : (Node.dir entries).at? ["a.ts"] = some (.file (.text sourceFile.content)) := by
    rw [Node.at?_cons, Node.child?, hfile]
    exact Node.at?_nil _
  have hread : (Tree.flat entries).readText? (top.join sourceFile.path) = some sourceFile.content :=
    Tree.readText?_of_place (sourceRoute.place_names rfl hnames (by simp) hat)
  have hsources : ((ruleAnalyzer document).sources (.flat entries)).1 = [sourceFile] := by
    have hroot : (ruleAnalyzer document).root = top := rfl
    rw [Analyzer.sources, hpaths, loadSources_fst, List.filterMap_cons, hroot, hread]
    rfl
  have hdocuments : Rules.documents (.flat entries) top { ruleDocuments := [document] } =
      (((Tree.flat entries).readText? (top.join document)).map fun text =>
        (document, text)).toList := by
    rw [Rules.documents, List.filterMap_cons]
    cases (Tree.flat entries).readText? (top.join document) <;> rfl
  rw [Analyzer.outcomes_eq rfl, hsources, ← hdocuments]
  rfl

/-- Nothing is on the worklist before the first run, and nothing in the log. -/
theorem countNew_fresh (document : Path) :
    ((ruleAnalyzer document).state.worklist.load fresh).countNew
        ((ruleAnalyzer document).records fresh epoch) =
      (Commit.proposed ((ruleAnalyzer document).outcomes fresh none)).length := by
  have hfree : ruleEntries.lookup ".critique" = none := rfl
  have hload : (ruleAnalyzer document).state.worklist.load fresh = .empty := by
    rw [state_ruleAnalyzer]
    exact WorklistFile.load_of_missing
      (Tree.readText?_eq_none (storeRoute.fileNames?_free rfl (by decide) hfree))
  have hentries : (ruleAnalyzer document).state.preferences.entries fresh = [] := by
    rw [state_ruleAnalyzer]
    exact StateFiles.entries_eq_nil
      (Tree.readText?_eq_none (logRoute.fileNames?_free rfl (by decide) hfree))
  have hkept : ∀ findings, Commit.kept [] findings = findings :=
    fun findings => List.filter_eq_self.mpr fun _ _ => rfl
  rw [Analyzer.records, hload, hentries, hkept,
    Commit.countNew_records (Commit.nodup_proposed _)]
  refine congrArg List.length (List.filter_eq_self.mpr fun finding _ => ?_)
  simp [Worklist.ids, Worklist.empty]

/-! ### A document by its own path -/

def rulesPath : Path := ⟨"RULES.md"⟩

def rulesRoute : Route where
  path := top.join rulesPath
  steps := [.enter "RULES.md"]

theorem place_rules {entries : List (String × Node)}
    (hfile : entries.lookup "RULES.md" = some (.file (.text ruleText))) :
    (Tree.flat entries).place true (top.join rulesPath) =
      .ok (.found ["RULES.md"] (.file (.text ruleText))) := by
  have hnames : ∀ name ∈ ["RULES.md"], Tree.IsName name :=
    List.forall_mem_singleton.mpr (isName_sample "RULES.md" (by simp))
  have hat : (Node.dir entries).at? ["RULES.md"] = some (.file (.text ruleText)) := by
    rw [Node.at?_cons, Node.child?, hfile]
    exact Node.at?_nil _
  exact rulesRoute.place_names rfl hnames (by simp) hat

theorem undisturbed_rules (text : String) :
    (ruleAnalyzer rulesPath).Undisturbed fresh (analysed text) := by
  have hbefore : fresh.fileNames? (top.join rulesPath) = some ["RULES.md"] :=
    Tree.fileNames?_eq_some.mpr ⟨_, place_rules rfl⟩
  have hafter : (analysed text).fileNames? (top.join rulesPath) = some ["RULES.md"] :=
    Tree.fileNames?_eq_some.mpr ⟨_, place_rules rfl⟩
  refine ⟨fun base names hbase hstore => ?_, ?_, ?_⟩
  · rw [state_ruleAnalyzer] at hstore
    rw [paths_analysed]
    exact uncollected_rule hbase hstore
  · rw [consulted_fresh, state_ruleAnalyzer]
    exact unread_rule hafter
  · rw [consulted_fresh, List.forall_mem_cons]
    refine ⟨fun _ => by rw [Tree.isFile_eq_isSome, hbefore]; rfl, fun path hpath hfile => ?_⟩
    rw [Tree.isFile_eq_isSome, fileNames?_otherFiles text path hpath] at hfile
    exact absurd hfile Bool.false_ne_true

theorem analyzeProject_again_rules :
    let analyzer := ruleAnalyzer rulesPath
    let file := analyzer.state.worklist
    fresh.HasDirectory ∧ fresh.top.IsOrderly ∧ epoch.isValid = true ∧
      Analyzer.open? fresh top { analysis := analyzer.config } [] = .ok analyzer ∧
      ∃ first after final,
        (analyzer.analyzeProject epoch).exec fresh = (.ok first, after) ∧
        analyzer.Undisturbed fresh after ∧ first.proposed = 1 ∧ first.stored = 1 ∧
        (analyzer.analyzeProject epoch).exec after = (.ok { first with stored := 0 }, final) ∧
        file.load final = { file.load after with lastAnalysis := some epoch } := by
  intro analyzer file
  have hd : fresh.HasDirectory := Tree.hasDirectory_flat _
  have hroot : fresh.isDir analyzer.root = true := isDir_top _
  have hopen : Analyzer.open? fresh top { analysis := analyzer.config } [] = .ok analyzer :=
    open?_top _ _
  obtain ⟨first, text, hfirst⟩ := exists_exec_fresh rulesPath
  obtain ⟨final, hsecond, hload, -⟩ := Analyzer.analyzeProject_again hopen hd isOrderly_fresh
    isValid_epoch isValid_epoch hfirst (undisturbed_rules text)
  obtain ⟨hreport, -⟩ := Analyzer.spec_of_analyzeProject hd isValid_epoch hroot hfirst
  have hproposed : (Commit.proposed (analyzer.outcomes fresh none)).length = 1 := by
    refine (length_proposed (paths_fresh rulesPath) rfl).trans ?_
    rw [Tree.readText?_of_place (place_rules rfl)]
    decide +kernel
  refine ⟨hd, isOrderly_fresh, isValid_epoch, hopen, first, analysed text, final, hfirst,
    undisturbed_rules text, ?_, ?_, hsecond, hload⟩
  · rw [hreport]
    exact hproposed
  · rw [hreport]
    exact (countNew_fresh rulesPath).trans hproposed

/-! ### A document by a path through the state directory -/

def roundaboutPath : Path := ⟨".critique/../RULES.md"⟩

def roundaboutRoute : Route where
  path := top.join roundaboutPath
  steps := [.enter ".critique", .up, .enter "RULES.md"]

theorem place_roundabout (text : String) :
    (analysed text).place true (top.join roundaboutPath) =
      .ok (.found ["RULES.md"] (.file (.text ruleText))) := by
  have htop : (analysed text).nodeOn [] =
      .dir (ruleEntries ++ [(".critique", stateDir text)]) := rfl
  have hfile : (ruleEntries ++ [(".critique", stateDir text)]).lookup "RULES.md" =
      some (.file (.text ruleText)) := rfl
  refine roundaboutRoute.place_eq_ok.mpr ((resolve_stateDir text _ _).trans ?_)
  rw [Tree.resolve_up rfl, List.tail_cons,
    Tree.resolve_enter_node htop (by decide) hfile (by simp), Tree.resolve_nil]
  rfl

/-- A document may come within reach through the directory that the first run makes.  The next run
then finds more, though neither of the two analyses or consults the worklist's file. -/
theorem analyzeProject_not_again :
    let analyzer := ruleAnalyzer roundaboutPath
    let store := analyzer.state.worklist.path
    Analyzer.open? fresh top { analysis := analyzer.config } [] = .ok analyzer ∧
      ∃ first second after final,
        (analyzer.analyzeProject epoch).exec fresh = (.ok first, after) ∧
        (analyzer.analyzeProject epoch).exec after = (.ok second, final) ∧
        (∀ base names, after.dirNames? analyzer.root = some base →
          after.fileNames? store = some (base ++ names) →
            Tree.pathOf names ∉ analyzer.paths fresh ∧ Tree.pathOf names ∉ analyzer.paths after) ∧
        (∀ path ∈ analyzer.consulted fresh ++ analyzer.consulted after,
          after.fileNames? path ≠ after.fileNames? store) ∧
        first.proposed = 0 ∧ second.proposed = 1 := by
  intro analyzer store
  have hstore : store = storePath :=
    congrArg (fun files => files.worklist.path) (state_ruleAnalyzer roundaboutPath)
  obtain ⟨first, text, hfirst⟩ := exists_exec_fresh roundaboutPath
  have hd : fresh.HasDirectory := Tree.hasDirectory_flat _
  have hd' : (analysed text).HasDirectory := Tree.hasDirectory_flat _
  have hroot : fresh.isDir analyzer.root = true := isDir_top _
  have hroot' : (analysed text).isDir analyzer.root = true := isDir_top _
  have hnames : (analysed text).fileNames? store = some [".critique", "criticisms.json"] :=
    hstore ▸ fileNames?_store text
  obtain ⟨second, final, hsecond⟩ :=
    Analyzer.exists_exec_analyzeProject hd' isValid_epoch hroot' hnames
  obtain ⟨hreport, -⟩ := Analyzer.spec_of_analyzeProject hd isValid_epoch hroot hfirst
  obtain ⟨hreport', -⟩ := Analyzer.spec_of_analyzeProject hd' isValid_epoch hroot' hsecond
  refine ⟨open?_top _ _, first, second, analysed text, final, hfirst, hsecond,
    fun base names hbase hnames => ?_, ?_, ?_, ?_⟩
  · rw [paths_fresh, paths_analysed, and_self]
    exact uncollected_rule hbase (hstore ▸ hnames)
  · rw [consulted_fresh, consulted_analysed, hstore, List.forall_mem_append, and_self]
    exact unread_rule (Tree.fileNames?_eq_some.mpr ⟨_, place_roundabout text⟩)
  · have hfree : ruleEntries.lookup ".critique" = none := rfl
    rw [hreport]
    refine (length_proposed (paths_fresh roundaboutPath) rfl).trans ?_
    have hunread : fresh.fileNames? (top.join roundaboutPath) = none :=
      roundaboutRoute.fileNames?_free rfl (by decide) hfree
    rw [fresh] at hunread
    rw [Tree.readText?_eq_none hunread]
    decide +kernel
  · rw [hreport']
    refine (length_proposed (paths_analysed roundaboutPath text) rfl).trans ?_
    have hread : (analysed text).readText? (top.join roundaboutPath) = some ruleText :=
      Tree.readText?_of_place (place_roundabout text)
    rw [analysed] at hread
    rw [hread]
    decide +kernel

end Sample

end Scrutiny
