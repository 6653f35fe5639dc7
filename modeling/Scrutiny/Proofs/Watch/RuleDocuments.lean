import Scrutiny.Proofs.Tree.Flat
import Scrutiny.Proofs.Watch.Notices
import Scrutiny.Watch.Session

/-!
Rule documents under watch.  The filter, the classification and the plan of a batch each judge the
path of an event by its components.  They agree on every listed Markdown document that is watched at
all: when it is written, the whole project is analysed.
-/

namespace Scrutiny

/-! ## 1. What depends on the components of a path only -/

namespace Path

variable {p q : Path}

theorem components_eq_of_same (h : p.same q = true) : p.components = q.components := by
  rwa [same, beq_iff_eq] at h

theorem fileName?_congr (h : p.same q = true) : p.fileName? = q.fileName? := by
  unfold fileName?
  rw [components_eq_of_same h]

theorem extension?_congr (h : p.same q = true) : p.extension? = q.extension? := by
  unfold extension?
  rw [fileName?_congr h]

theorem hasComponent_congr (h : p.same q = true) (name : String) :
    p.hasComponent name = q.hasComponent name := by
  unfold hasComponent
  rw [components_eq_of_same h]

-- A path with an extension names a file, and so has a component.
theorem components_ne_nil_of_extension? {extension : String} (h : p.extension? = some extension) :
    p.components ≠ [] := by
  intro hnone
  unfold extension? fileName? at h
  rw [hnone] at h
  exact nomatch h

/-- The extensions of manifests and lock files. -/
def manifestExtensions : List String :=
  manifestNames.filterMap fun name => (splitExtension name.toList).2.map String.ofList

theorem isManifest_of_extension? {extension : String} (hother : extension ∉ manifestExtensions)
    (h : p.extension? = some extension) : p.isManifest = false := by
  unfold extension? at h
  unfold isManifest
  cases hname : p.fileName? with
  | none => rfl
  | some name =>
    rw [hname] at h
    rw [Option.any_some, ← Bool.not_eq_true, List.contains_iff_mem]
    intro hmem
    exact hother (List.mem_filterMap.mpr ⟨name, hmem, h⟩)

end Path

theorem PathFilter.accepts_congr {p q : Path} (h : p.same q = true) (filter : PathFilter) :
    filter.accepts p = filter.accepts q := by
  unfold accepts isMonitored isIgnored Path.hasExtensionIn
  rw [Path.extension?_congr h, funext (Path.hasComponent_congr h)]

/-! ## 2. Batches with a rule document -/

theorem WatchEvent.action_of_extension? {event : WatchEvent} (hkind : event.kind ≠ .unlink)
    (h : event.path.extension? = some "md") : event.classify.action = .docsChanged := by
  have hunlink : event.isUnlink = false := by
    unfold isUnlink
    simpa using hkind
  unfold classify
  rw [if_neg (by simp [hunlink]), if_neg (by simp [Path.isManifest_of_extension? (by decide) h]),
    if_pos (by simp [h])]

/-- One event that changes the rules makes the batch one for the whole project. -/
theorem BatchPlan.isWhole_of_mem {ruleDocuments : List Path} {batch : EventBatch}
    {event : WatchEvent} (hevent : event ∈ batch.events)
    (h : BatchPlan.changesRules ruleDocuments event = true) :
    (BatchPlan.ofBatch ruleDocuments batch).isWhole = true :=
  List.any_eq_true.mpr ⟨event, hevent, h⟩

/-- The analysis of the whole project, and of the new files that may lack tests. -/
def Analyzer.analyzeWhole (analyzer : Analyzer) (now : Instant) (untested : List Path) :
    TreeStep AnalysisError (AnalysisReport × AnalysisReport) := do
  let analysed ← analyzer.analyzeProject now
  let suggested ← analyzer.suggestTests now untested
  pure (analysed, suggested)

theorem Analyzer.carryOut_of_isWhole (analyzer : Analyzer) (now : Instant) {plan : BatchPlan}
    (h : plan.isWhole = true) :
    analyzer.carryOut now plan = analyzer.analyzeWhole now plan.untested := by
  unfold Analyzer.carryOut
  rw [if_pos h]
  rfl

/-! ## 3. From the notice to the analysis -/

/-- The event says that a rule document was written, and so any batch with it has the whole project
analysed. -/
structure WatchEvent.Rechecks (event : WatchEvent) (config : AnalysisConfig) (document : Path) :
    Prop where
  path : event.path.same document = true
  kind : event.kind = .add ∨ event.kind = .change
  action : event.classify.action = .docsChanged
  isWhole (batch : EventBatch) : event ∈ batch.events →
    (BatchPlan.ofBatch config.ruleDocuments batch).isWhole = true
  carryOut (batch : EventBatch) (analyzer : Analyzer) (now : Instant) :
    event ∈ batch.events → analyzer.config = config →
    let plan := BatchPlan.ofBatch analyzer.config.ruleDocuments batch
    analyzer.carryOut now plan = analyzer.analyzeWhole now plan.untested

theorem WatchEvent.rechecks {event : WatchEvent} {config : AnalysisConfig} {document : Path}
    (hlisted : document ∈ config.ruleDocuments) (hmarkdown : document.extension? = some "md")
    (hpath : event.path.same document = true) (hkind : event.kind ≠ .unlink) :
    event.Rechecks config document := by
  have haction : event.classify.action = .docsChanged := by
    apply WatchEvent.action_of_extension? hkind
    rw [Path.extension?_congr hpath, hmarkdown]
  have hwhole : ∀ batch : EventBatch, event ∈ batch.events →
      (BatchPlan.ofBatch config.ruleDocuments batch).isWhole = true := by
    intro batch hevent
    apply BatchPlan.isWhole_of_mem hevent
    unfold BatchPlan.changesRules
    rw [haction, Bool.and_eq_true]
    exact ⟨rfl, List.any_eq_true.mpr ⟨document, hlisted, hpath⟩⟩
  refine ⟨hpath, ?_, haction, hwhole, ?_⟩
  · cases hevent : event.kind with
    | add => exact .inl rfl
    | change => exact .inr rfl
    | unlink => exact absurd hevent hkind
  · intro batch analyzer now hevent hconfig
    apply analyzer.carryOut_of_isWhole now
    rw [hconfig]
    exact hwhole batch hevent

namespace Watcher

/-- Writing a listed Markdown document that the filter lets through, at any time while the project
is watched, has the whole project analysed. -/
theorem exists_rechecks_of_listed {tree : Tree} {root : Path} {watcher : Watcher}
    (config : Config) (steps : List Step) (document native : Path) (timestamp : Nat)
    (started : start tree root config.watch (PathFilter.ofConfig config.watch).accepts =
      .ok watcher)
    (live : .stop ∉ steps) (listed : document ∈ config.analysis.ruleDocuments)
    (accepted : (PathFilter.ofConfig config.watch).accepts document = true)
    (markdown : document.extension? = some "md")
    (below : native.components = watcher.root.components ++ document.components) :
    ∃ event, ((watcher.after steps).notice native .file timestamp).1 = some event ∧
      event.Rechecks config.analysis document := by
  obtain ⟨names, node, -, rfl⟩ := eq_opened_of_start started
  change native.components = (Path.ofNames names).components ++ document.components at below
  have hrelative : ∀ relative, (Path.ofNames names).stripBase? native = some relative →
      relative.same document = true := by
    intro relative hrest
    have hcomponents := Path.components_of_stripBase? (components_root_ne_nil names) hrest
    rw [below] at hcomponents
    rw [Path.same, List.append_cancel_left hcomponents, beq_self_eq_true]
  generalize PathSet.ofList _ = scanned
  have hheeds : ∃ relative, ((opened names (PathFilter.ofConfig config.watch).accepts scanned).after
      steps).Heeds native .file relative := by
    rw [exists_heeds_after]
    have habove : (Path.ofNames names).IsAbove native :=
      ⟨document.components, Path.components_ne_nil_of_extension? markdown, below⟩
    refine ⟨habove, ?_, by decide, live⟩
    intro relative hrest
    rwa [PathFilter.accepts_congr (hrelative relative hrest)]
  rw [← isSome_notice _ native .file timestamp] at hheeds
  obtain ⟨event, hevent⟩ := Option.isSome_iff_exists.mp hheeds
  have hreports := reports_after hevent
  refine ⟨event, hevent, WatchEvent.rechecks listed markdown (hrelative _ hreports.rest) ?_⟩
  intro hunlink
  exact absurd (hreports.unlink.mp hunlink) (by decide)

def sampleProject : Tree :=
  .flat [("p", .dir [("CLAUDE.md", .file (.text "Never use foo.\n"))])]

theorem rechecks_sampleProject : ∃ watcher event,
    start sampleProject ⟨"p"⟩ {} (PathFilter.ofConfig {}).accepts = .ok watcher ∧
    ((watcher.after [.notice ⟨"/p/a.ts"⟩ .file 1]).notice ⟨"/p/CLAUDE.md"⟩ .file 2).1 = some event ∧
    event.Rechecks {} ⟨"CLAUDE.md"⟩ := by
  have started : start sampleProject ⟨"p"⟩ {} (PathFilter.ofConfig {}).accepts =
      .ok (opened ["p"] (PathFilter.ofConfig {}).accepts
        (.ofList ((scan {} (.dir [("CLAUDE.md", .file (.text "Never use foo.\n"))])).filter
          (PathFilter.ofConfig {}).accepts))) := by
    unfold start sampleProject
    rw [Tree.place_flat_node (by decide) (by simp) rfl]
    rfl
  obtain ⟨event, hevent, hrechecks⟩ := exists_rechecks_of_listed {} [.notice ⟨"/p/a.ts"⟩ .file 1]
    ⟨"CLAUDE.md"⟩ ⟨"/p/CLAUDE.md"⟩ 2 started (by decide) (by decide) (by decide) (by decide)
    (by decide)
  exact ⟨_, event, started, hevent, hrechecks⟩

/-- A listed document may lie out of sight: its extension is not watched, or a component of it is
ignored.  One that is no Markdown, or is listed with a leading `.`, is not known again. -/
theorem unwatched_rule_documents :
    (⟨"CLAUDE.md"⟩ ∈ ({} : AnalysisConfig).ruleDocuments ∧
      ((opened ["p"] (PathFilter.ofConfig { extensions := ["ts"] }).accepts ⟨[]⟩).notice
        ⟨"/p/CLAUDE.md"⟩ .file 1).1 = none) ∧
    (⟨".critique/rules.md"⟩ ∈ ({} : AnalysisConfig).ruleDocuments ∧
      ((opened ["p"] (PathFilter.ofConfig {}).accepts ⟨[]⟩).notice
        ⟨"/p/.critique/rules.md"⟩ .file 1).1 = none) ∧
    (((opened ["p"] (PathFilter.ofConfig {}).accepts ⟨[]⟩).notice ⟨"/p/RULES.json"⟩ .file 1).1 =
        some ⟨.add, ⟨"RULES.json"⟩, 1⟩ ∧
      (BatchPlan.ofBatch [⟨"RULES.json"⟩] ⟨[⟨.add, ⟨"RULES.json"⟩, 1⟩]⟩).isWhole = false) ∧
    (((opened ["p"] (PathFilter.ofConfig {}).accepts ⟨[]⟩).notice ⟨"/p/./CLAUDE.md"⟩ .file 1).1 =
        some ⟨.add, ⟨"CLAUDE.md"⟩, 1⟩ ∧
      (BatchPlan.ofBatch [⟨"./CLAUDE.md"⟩] ⟨[⟨.add, ⟨"CLAUDE.md"⟩, 1⟩]⟩).isWhole = false) := by
  decide

end Watcher

end Scrutiny
