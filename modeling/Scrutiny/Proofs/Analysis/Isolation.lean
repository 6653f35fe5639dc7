import Scrutiny.Proofs.Analysis.Clock
import Scrutiny.Proofs.Analysis.Repetition

/-!
Detectors that fail.  However many of them stand among the others, and wherever they do, the others
find, and the analysis keeps, what there is without them.  Only the report lists the failures.
-/

namespace Scrutiny

/-! ## 1. Lists with others inserted -/

/-- The third list has the members of both others, each list in its order. -/
inductive Interleaving {α : Type} : List α → List α → List α → Prop
  | nil : Interleaving [] [] []
  | left {front inserted all : List α} (a : α) (rest : Interleaving front inserted all) :
      Interleaving (a :: front) inserted (a :: all)
  | right {front inserted all : List α} (a : α) (rest : Interleaving front inserted all) :
      Interleaving front (a :: inserted) (a :: all)

namespace Interleaving

variable {α β : Type} {front inserted all : List α}

theorem map (h : Interleaving front inserted all) (f : α → β) :
    Interleaving (front.map f) (inserted.map f) (all.map f) := by
  induction h with
  | nil => exact .nil
  | left a _ ih => exact .left (f a) ih
  | right a _ ih => exact .right (f a) ih

theorem filterMap (h : Interleaving front inserted all) (f : α → Option β) :
    Interleaving (front.filterMap f) (inserted.filterMap f) (all.filterMap f) := by
  induction h with
  | nil => exact .nil
  | left a _ ih =>
    rw [List.filterMap_cons, List.filterMap_cons]
    cases f a with
    | none => exact ih
    | some b => exact .left b ih
  | right a _ ih =>
    rw [List.filterMap_cons, List.filterMap_cons]
    cases f a with
    | none => exact ih
    | some b => exact .right b ih

-- Members that give nothing may be left out.
theorem flatMap_eq (h : Interleaving front inserted all) {f : α → List β}
    (hnone : ∀ a ∈ inserted, f a = []) : all.flatMap f = front.flatMap f := by
  induction h with
  | nil => rfl
  | left a _ ih => rw [List.flatMap_cons, List.flatMap_cons, ih hnone]
  | right a _ ih =>
    rw [List.forall_mem_cons] at hnone
    rw [List.flatMap_cons, hnone.1, List.nil_append, ih hnone.2]

theorem foldl_eq (h : Interleaving front inserted all) {f : β → α → β}
    (hsame : ∀ a ∈ inserted, ∀ b, f b a = b) (b : β) : all.foldl f b = front.foldl f b := by
  induction h generalizing b with
  | nil => rfl
  | left a _ ih => exact ih hsame (f b a)
  | right a _ ih =>
    rw [List.forall_mem_cons] at hsame
    rw [List.foldl_cons, hsame.1]
    exact ih hsame.2 b

end Interleaving

/-! ## 2. Failed outcomes -/

section Outcomes

variable {sound failed outcomes : List Outcome}

/-- Failed detectors propose nothing. -/
theorem Commit.proposed_of_interleaving (h : Interleaving sound failed outcomes)
    (hfailed : ∀ outcome ∈ failed, ∃ error, outcome.result = .error error) :
    Commit.proposed outcomes = Commit.proposed sound := by
  have hnone : ∀ outcome ∈ failed, outcome.findings = [] := by
    intro outcome houtcome
    obtain ⟨error, herror⟩ := hfailed outcome houtcome
    unfold Outcome.findings
    rw [herror]
  unfold Commit.proposed
  rw [h.flatMap_eq hnone]

/-- The report says the same but for the failures. -/
theorem Commit.report_of_interleaving (h : Interleaving sound failed outcomes)
    (hfailed : ∀ outcome ∈ failed, ∃ error, outcome.result = .error error)
    (entries : List PreferenceEntry) (stats : AnalysisStats) (stored : Nat) :
    Commit.report entries stats outcomes stored =
      { Commit.report entries stats sound stored with
        degraded := outcomes.filterMap Outcome.degraded? } := by
  have hsame : ∀ outcome ∈ failed, ∀ stats, outcome.count stats = stats := by
    intro outcome houtcome stats
    obtain ⟨error, herror⟩ := hfailed outcome houtcome
    unfold Outcome.count
    rw [herror]
  unfold Commit.report
  rw [Commit.proposed_of_interleaving h hfailed,
    h.foldl_eq (f := fun stats outcome => outcome.count stats) hsame]

end Outcomes

/-! ## 3. Analyses with failing detectors -/

namespace Analyzer

/-- What the detectors of an analysis are given. -/
def scopeOf (analyzer : Analyzer) (tree : Tree) (request : Option (List Path)) : Scope where
  root := analyzer.root
  files := (analyzer.sources tree).1
  changed := request.map analyzer.relative
  config := analyzer.config

/-- The failures of detectors, in the order of the detectors. -/
def failures (detectors : List Detector) (tree : Tree) (scope : Scope) : List DegradedDetector :=
  detectors.filterMap fun detector =>
    match detector.run tree scope with
    | .ok _ => none
    | .error error => some ⟨detector.kind, error⟩

variable {analyzer : Analyzer} {inserted detectors : List Detector} {tree after : Tree}
  {request : Option (List Path)} {now later : Instant}

theorem degraded_outcomes (analyzer : Analyzer) (tree : Tree) (request : Option (List Path)) :
    (analyzer.outcomes tree (request.map analyzer.relative)).filterMap Outcome.degraded? =
      failures analyzer.detectors tree (analyzer.scopeOf tree request) := by
  unfold outcomes failures
  rw [List.filterMap_map]
  rfl

theorem length_failures {scope : Scope}
    (h : ∀ detector ∈ detectors, ∃ error, detector.run tree scope = .error error) :
    (failures detectors tree scope).length = detectors.length := by
  induction detectors with
  | nil => rfl
  | cons detector detectors ih =>
    rw [List.forall_mem_cons] at h
    obtain ⟨⟨error, herror⟩, hrest⟩ := h
    unfold failures at ih ⊢
    rw [List.filterMap_cons, herror]
    exact congrArg Nat.succ (ih hrest)

/-- What an analysis comes to with failing detectors among the others, compared with what it comes
to without them. -/
structure Isolates (analyzer : Analyzer) (inserted detectors : List Detector) (tree : Tree)
    (request : Option (List Path)) (now later : Instant)
    (plain : Except AnalysisError AnalysisReport) (after : Tree)
    (mixed : Except AnalysisError AnalysisReport) (final : Tree) : Prop where
  /-- Without files no detector runs. -/
  idle : request = some [] → plain = .ok {} ∧ mixed = .ok {} ∧ after = tree ∧ final = tree
  /-- The result is the same but for the failures in the report. -/
  result : request ≠ some [] → mixed = plain.map fun report =>
    { report with degraded := failures detectors tree (analyzer.scopeOf tree request) }
  /-- Just the inserted failures are new there, each at its place. -/
  degraded : request ≠ some [] → ∀ report, plain = .ok report →
    Interleaving report.degraded (failures inserted tree (analyzer.scopeOf tree request))
      (failures detectors tree (analyzer.scopeOf tree request))
  all : (failures inserted tree (analyzer.scopeOf tree request)).length = inserted.length
  /-- The worklists that are left differ in times at most. -/
  worklist : analyzer.state.worklist.Agrees now later plain after final
  /-- Where the clock reads the same, the trees are the same. -/
  tree : later = now → final = after

theorem outcomes_of_interleaving (hinserted : Interleaving analyzer.detectors inserted detectors)
    (hfails : ∀ detector ∈ inserted,
      ∃ error, detector.run tree (analyzer.scopeOf tree request) = .error error) :
    ∃ failed, Interleaving (analyzer.outcomes tree (request.map analyzer.relative)) failed
        (({ analyzer with detectors } : Analyzer).outcomes tree (request.map analyzer.relative)) ∧
      ∀ outcome ∈ failed, ∃ error, outcome.result = .error error := by
  have houtcomes := hinserted.map fun detector =>
    (⟨detector.kind, detector.run tree (analyzer.scopeOf tree request)⟩ : Outcome)
  refine ⟨_, houtcomes, ?_⟩
  rw [List.forall_mem_map]
  exact hfails

theorem findings_of_interleaving (hinserted : Interleaving analyzer.detectors inserted detectors)
    (hfails : ∀ detector ∈ inserted,
      ∃ error, detector.run tree (analyzer.scopeOf tree request) = .error error) :
    ({ analyzer with detectors } : Analyzer).findings tree request =
      analyzer.findings tree request := by
  obtain ⟨failed, houtcomes, hfailed⟩ := outcomes_of_interleaving hinserted hfails
  have hproposed := Commit.proposed_of_interleaving houtcomes hfailed
  unfold findings
  exact congrArg _ hproposed

theorem report_of_interleaving (hinserted : Interleaving analyzer.detectors inserted detectors)
    (hfails : ∀ detector ∈ inserted,
      ∃ error, detector.run tree (analyzer.scopeOf tree request) = .error error) (stored : Nat) :
    Commit.report (analyzer.state.preferences.entries tree) (analyzer.sources tree).2
        (({ analyzer with detectors } : Analyzer).outcomes tree (request.map analyzer.relative))
        stored =
      { Commit.report (analyzer.state.preferences.entries tree) (analyzer.sources tree).2
          (analyzer.outcomes tree (request.map analyzer.relative)) stored with
        degraded := failures detectors tree (analyzer.scopeOf tree request) } := by
  obtain ⟨failed, houtcomes, hfailed⟩ := outcomes_of_interleaving hinserted hfails
  have hdegraded := degraded_outcomes { analyzer with detectors } tree request
  rw [Commit.report_of_interleaving houtcomes hfailed]
  exact congrArg (AnalysisReport.mk _ _ _ · _) hdegraded

/-- A failing detector is isolated.  Insert any detectors that fail anywhere among those of an
analyzer: an analysis of the project or of some of its files finds, suppresses and stores the same,
and only the report tells of the failures. -/
theorem isolates_failures {plain : Except AnalysisError AnalysisReport} (hd : tree.HasDirectory)
    (hnow : now.isValid = true) (hlater : later.isValid = true)
    (hinserted : Interleaving analyzer.detectors inserted detectors)
    (hfails : ∀ detector ∈ inserted,
      ∃ error, detector.run tree (analyzer.scopeOf tree request) = .error error)
    (hplain : (analyzer.analyze now request).exec tree = (plain, after)) :
    ∃ mixed final,
      (({ analyzer with detectors } : Analyzer).analyze later request).exec tree = (mixed, final) ∧
      analyzer.Isolates inserted detectors tree request now later plain after mixed final := by
  let whole : Analyzer := { analyzer with detectors }
  have hall := length_failures hfails
  by_cases hrequest : request = some []
  · subst hrequest
    rw [exec_analyze_nil, Prod.mk.injEq] at hplain
    obtain ⟨rfl, rfl⟩ := hplain
    exact ⟨.ok {}, tree, exec_analyze_nil whole later tree, fun _ => ⟨rfl, rfl, rfl, rfl⟩,
      fun hne => absurd rfl hne, fun hne => absurd rfl hne, hall, .refl _, fun _ => rfl⟩
  have hidle {p : Prop} : request = some [] → p := fun h => absurd h hrequest
  cases hroot : tree.isDir analyzer.root with
  | false =>
    have hroot' : tree.isDir whole.root = false := hroot
    rw [exec_analyze_of_missing hroot hrequest, Prod.mk.injEq] at hplain
    obtain ⟨rfl, rfl⟩ := hplain
    exact ⟨_, tree, exec_analyze_of_missing hroot' hrequest later, hidle, fun _ => rfl,
      fun _ _ h => (nomatch h), hall, rfl, fun _ => rfl⟩
  | true =>
    have hroot' : tree.isDir whole.root = true := hroot
    rcases hupdate : (analyzer.state.worklist.update (analyzer.findings tree request) now).exec tree
      with ⟨updated, between⟩
    obtain ⟨final, hfinal, hagrees⟩ :=
      WorklistFile.exists_exec_update hd hnow hlater _ hupdate
    have hexec := exec_analyze hroot hrequest hupdate
    rw [hplain, Prod.mk.injEq] at hexec
    obtain ⟨rfl, rfl⟩ := hexec
    have hsame : later = now → final = after := by
      rintro rfl
      exact (Prod.mk.inj (hfinal.symm.trans hupdate)).2
    rw [← findings_of_interleaving hinserted hfails] at hfinal
    refine ⟨_, final, exec_analyze hroot' hrequest hfinal, hidle, fun _ => ?_,
      fun _ report hreport => ?_, hall, ?_, hsame⟩
    · cases updated with
      | error error => rfl
      | ok stored => exact congrArg Except.ok (report_of_interleaving hinserted hfails stored)
    · cases updated with
      | error error => exact nomatch hreport
      | ok stored =>
        rw [← Except.ok.inj hreport]
        show Interleaving ((analyzer.outcomes tree _).filterMap Outcome.degraded?) _ _
        rw [degraded_outcomes]
        exact hinserted.filterMap _
    · cases updated <;> exact hagrees

end Analyzer

namespace Sample

def broken (name : String) : Detector :=
  ⟨.coverage, fun _ _ => .error (.rootNotFound ⟨name⟩)⟩

/-- The standard detectors with two failing ones, before and among them. -/
def mixedDetectors : List Detector :=
  [broken "first", .clones, .secrets, broken "second", .rules, .unusedImports]

theorem interleaving_mixedDetectors (document : Path) :
    Interleaving (ruleAnalyzer document).detectors [broken "first", broken "second"]
      mixedDetectors :=
  .right _ (.left _ (.left _ (.right _ (.left _ (.left _ .nil)))))

def later : Instant := ⟨60, 0⟩

theorem isValid_later : later.isValid = true := by decide

theorem isolates_failures_mixed :
    let analyzer := ruleAnalyzer rulesPath
    let whole : Analyzer := { analyzer with detectors := mixedDetectors }
    ∃ report after final,
      (analyzer.analyze epoch none).exec fresh = (.ok report, after) ∧
      (whole.analyze later none).exec fresh =
        (.ok { report with degraded :=
          [⟨.coverage, .rootNotFound ⟨"first"⟩⟩, ⟨.coverage, .rootNotFound ⟨"second"⟩⟩] }, final) ∧
      (analyzer.state.worklist.load after).Retimed epoch later
        (analyzer.state.worklist.load final) := by
  intro analyzer whole
  obtain ⟨report, text, hplain⟩ : ∃ report text,
      (analyzer.analyze epoch none).exec fresh = (.ok report, analysed text) :=
    exists_exec_fresh rulesPath
  have hfails : ∀ detector ∈ [broken "first", broken "second"], ∃ error,
      detector.run fresh (analyzer.scopeOf fresh none) = .error error := by
    simp [broken]
  obtain ⟨mixed, final, hmixed, hisolates⟩ := Analyzer.isolates_failures
    (Tree.hasDirectory_flat _) isValid_epoch isValid_later (interleaving_mixedDetectors rulesPath)
    hfails hplain
  have hrules (scope : Scope) : Detector.rules.run fresh scope = .ok _ :=
    Rules.detectWith_of_build (Rules.build_default _) scope
  have hfailures : Analyzer.failures mixedDetectors fresh (analyzer.scopeOf fresh none) =
      [⟨.coverage, .rootNotFound ⟨"first"⟩⟩, ⟨.coverage, .rootNotFound ⟨"second"⟩⟩] := by
    simp [Analyzer.failures, mixedDetectors, broken, Detector.clones, Detector.secrets,
      Detector.unusedImports, hrules]
  have hresult : mixed = .ok { report with degraded :=
      [⟨.coverage, .rootNotFound ⟨"first"⟩⟩, ⟨.coverage, .rootNotFound ⟨"second"⟩⟩] } := by
    rw [← hfailures]
    exact hisolates.result nofun
  rw [hresult] at hmixed
  exact ⟨report, _, final, hplain, hmixed, hisolates.worklist⟩

/-- Where no file changed no detector runs, so that no failure is told of. -/
theorem no_failure_without_files :
    let analyzer := topAnalyzer {}
    let whole : Analyzer := { analyzer with detectors := broken "first" :: analyzer.detectors }
    let scope : Scope := ⟨top, [], some ⟨[]⟩, {}⟩
    (analyzer.analyzeChanged epoch []).exec (.flat []) = (.ok {}, .flat []) ∧
      (whole.analyzeChanged epoch []).exec (.flat []) = (.ok {}, .flat []) ∧
      Analyzer.failures [broken "first"] (.flat []) scope =
        [⟨.coverage, .rootNotFound ⟨"first"⟩⟩] ∧
      ({} : AnalysisReport).degraded = [] :=
  ⟨rfl, rfl, rfl, rfl⟩

end Sample

end Scrutiny
