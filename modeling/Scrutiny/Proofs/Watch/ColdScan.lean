import Scrutiny.Proofs.Tree.Visits
import Scrutiny.Proofs.Watch.RuleDocuments
import Scrutiny.Proofs.Watch.Settling

/-!
The files that a watcher starts from.  The scan keeps out of directories with an ignored name, and
the filter looks at every component of a path; so the known files are just those that the filter
lets through, and the first event of a path tells whether its file was there.
-/

namespace Scrutiny

/-! ## 1. What a scan finds -/

namespace Watcher

variable {ignoredDirs : List String}

mutual

theorem prefix_of_mem_scanNode : ∀ (here : List String) (node : Node),
    ∀ listed ∈ scanNode ignoredDirs none here node, here <+: listed
  | here, .file content, listed, h => by
      rw [scanNode, List.mem_singleton] at h
      exact h ▸ List.prefix_rfl
  | here, .link target, listed, h => by
      rw [scanNode] at h
      exact absurd h List.not_mem_nil
  | here, .dir entries, listed, h => by
      rw [scanNode] at h
      split at h
      · exact absurd h List.not_mem_nil
      · obtain ⟨entry, -, hbelow⟩ := exists_of_mem_scanEntries here entries listed h
        exact (List.prefix_append here [entry.1]).trans hbelow

theorem exists_of_mem_scanEntries : ∀ (here : List String) (entries : List (String × Node)),
    ∀ listed ∈ scanEntries ignoredDirs none here entries,
      ∃ entry ∈ entries, here ++ [entry.1] <+: listed
  | here, [], listed, h => by
      rw [scanEntries] at h
      exact absurd h List.not_mem_nil
  | here, (name, node) :: entries, listed, h => by
      rw [scanEntries, List.mem_append] at h
      rcases h with hfirst | hrest
      · exact ⟨(name, node), List.mem_cons_self,
          prefix_of_mem_scanNode (here ++ [name]) node listed hfirst⟩
      · obtain ⟨entry, hentry, hbelow⟩ := exists_of_mem_scanEntries here entries listed hrest
        exact ⟨entry, List.mem_cons_of_mem _ hentry, hbelow⟩

end

theorem scanNode_dir (here : List String) (name : String) (entries : List (String × Node)) :
    scanNode ignoredDirs none (here ++ [name]) (.dir entries) =
      if ignoredDirs.contains name then []
      else scanEntries ignoredDirs none (here ++ [name]) entries := by
  simp [scanNode]

theorem scanEntries_eq_flatMap (here : List String) (entries : List (String × Node)) :
    scanEntries ignoredDirs none here entries =
      entries.flatMap fun entry => scanNode ignoredDirs none (here ++ [entry.1]) entry.2 := by
  induction entries with
  | nil => rw [scanEntries, List.flatMap_nil]
  | cons entry entries ih => rw [scanEntries, ih, List.flatMap_cons]

-- The entry under the next name is the only one whose files have that name there.
theorem mem_scanEntries_cons {here names : List String} {name : String}
    {entries : List (String × Node)} (horderly : (Node.dir entries).IsOrderly) :
    here ++ name :: names ∈ scanEntries ignoredDirs none here entries ↔
      ∃ node, entries.lookup name = some node ∧
        here ++ [name] ++ names ∈ scanNode ignoredDirs none (here ++ [name]) node := by
  rw [scanEntries_eq_flatMap, List.mem_flatMap, List.append_cons]
  constructor
  · rintro ⟨⟨other, node⟩, hmem, hlisted⟩
    have hprefix := prefix_of_mem_scanNode (here ++ [other]) node _ hlisted
    rw [List.append_assoc, List.prefix_append_right_inj, List.singleton_append,
      List.cons_prefix_cons] at hprefix
    obtain ⟨rfl, -⟩ := hprefix
    exact ⟨node, (horderly.entry hmem).2.1, hlisted⟩
  · rintro ⟨node, hlookup, hlisted⟩
    exact ⟨(name, node), Node.mem_of_lookup hlookup, hlisted⟩

theorem mem_scanEntries_iff {here names : List String} {entries : List (String × Node)}
    (horderly : (Node.dir entries).IsOrderly) :
    here ++ names ∈ scanEntries ignoredDirs none here entries ↔
      ∃ content, (Node.dir entries).at? names = some (.file content) ∧
        ∀ name ∈ names.dropLast, ignoredDirs.contains name = false := by
  induction names generalizing here entries with
  | nil =>
    refine iff_of_false (fun h => ?_) (by simp)
    obtain ⟨entry, -, hbelow⟩ := exists_of_mem_scanEntries here entries _ h
    exact absurd hbelow.length_le (by simp)
  | cons name names ih =>
    rw [mem_scanEntries_cons horderly, Node.at?_cons]
    change (∃ node, (Node.dir entries).child? name = some node ∧ _) ↔ _
    cases hchild : (Node.dir entries).child? name with
    | none => simp
    | some node =>
      have hinner := (horderly.entry (Node.mem_of_lookup hchild)).2.2
      simp only [Option.some.injEq, exists_eq_left', Option.bind_some]
      cases node with
      | file content => cases names <;> simp [scanNode, Node.at?_cons, Node.child?]
      | link target => cases names <;> simp [scanNode, Node.at?_cons, Node.child?]
      | dir others =>
        rw [scanNode_dir]
        by_cases hignored : ignoredDirs.contains name = true
        · rw [if_pos hignored]
          refine iff_of_false List.not_mem_nil ?_
          rintro ⟨content, hat, hkept⟩
          cases names with
          | nil => simp at hat
          | cons next names =>
            rw [List.dropLast_cons_cons, List.forall_mem_cons] at hkept
            exact Bool.false_ne_true (hkept.1.symm.trans hignored)
        · rw [if_neg hignored, ih hinner]
          cases names with
          | nil => simp
          | cons next names =>
            rw [List.dropLast_cons_cons, List.forall_mem_cons,
              and_iff_right (eq_false_of_ne_true hignored)]

theorem mem_scan_iff {config : WatchConfig} {root : Node} {path : Path}
    (hrecursive : config.recursive = true) (horderly : root.IsOrderly) :
    path ∈ scan config root ↔ ∃ names content, path = Tree.pathOf names ∧
      root.at? names = some (.file content) ∧
      ∀ name ∈ names.dropLast, config.ignoredDirs.contains name = false := by
  unfold scan
  rw [if_pos hrecursive]
  cases root with
  | file content =>
    change path ∈ (scanNode _ _ [] (.file content)).map Tree.pathOf ↔ _
    rw [scanNode, List.map_singleton, List.mem_singleton]
    constructor
    · rintro rfl
      exact ⟨[], content, rfl, Node.at?_nil _, List.forall_mem_nil _⟩
    · rintro ⟨names, other, rfl, hat, -⟩
      cases names with
      | nil => rfl
      | cons name names => simp [Node.at?_cons, Node.child?] at hat
  | link target =>
    change path ∈ (scanNode _ _ [] (.link target)).map Tree.pathOf ↔ _
    rw [scanNode, List.map_nil]
    refine iff_of_false List.not_mem_nil ?_
    rintro ⟨names, content, -, hat, -⟩
    cases names <;> simp [Node.at?_cons, Node.child?] at hat
  | dir entries =>
    have hlisted (names : List String) := @mem_scanEntries_iff config.ignoredDirs [] names entries
      horderly
    simp only [List.nil_append] at hlisted
    simp only [List.mem_map, hlisted]
    constructor
    · rintro ⟨names, ⟨content, hat, hkept⟩, rfl⟩
      exact ⟨names, content, rfl, hat, hkept⟩
    · rintro ⟨names, content, rfl, hat, hkept⟩
      exact ⟨names, ⟨content, hat, hkept⟩, rfl⟩

end Watcher

/-! ## 2. What a watcher starts from -/

/-- There is a file at a path of the project, with no link on the way to it. -/
def Tree.HasFileAt (tree : Tree) (base : List String) (path : Path) : Prop :=
  ∃ names content, path.same (pathOf names) = true ∧
    tree.top.at? (base ++ names) = some (.file content)

namespace Watcher

section Project

variable {tree : Tree} {base : List String} {node : Node} {config : WatchConfig}

/-- A directory left out by the scan holds no file that the filter lets through. -/
theorem contains_scan_iff (hrecursive : config.recursive = true) (horderly : tree.top.IsOrderly)
    (hnode : tree.top.at? base = some node) (path : Path) :
    (PathSet.ofList ((scan config node).filter (PathFilter.ofConfig config).accepts)).contains
        path = true ↔
      tree.HasFileAt base path ∧ (PathFilter.ofConfig config).accepts path = true := by
  have hinner : node.IsOrderly := horderly.at? hnode
  have hbelow : ∀ names, tree.top.at? (base ++ names) = node.at? names := by
    intro names
    rw [Node.at?_append, hnode]
    rfl
  rw [PathSet.contains_ofList, List.any_eq_true]
  constructor
  · rintro ⟨listed, hlisted, hsame⟩
    obtain ⟨hscanned, haccepted⟩ := List.mem_filter.mp hlisted
    obtain ⟨names, content, rfl, hat, -⟩ := (mem_scan_iff hrecursive hinner).mp hscanned
    refine ⟨⟨names, content, by rwa [Path.same_comm], by rwa [hbelow]⟩, ?_⟩
    rwa [← PathFilter.accepts_congr hsame]
  · rintro ⟨⟨names, content, hsame, hat⟩, haccepted⟩
    rw [hbelow] at hat
    rw [PathFilter.accepts_congr hsame] at haccepted
    have hkept : ∀ name ∈ names, config.ignoredDirs.contains name = false := by
      rw [← Tree.any_hasComponent_pathOf (hinner.isName hat)]
      rw [PathFilter.accepts, Bool.and_eq_true, Bool.not_eq_true'] at haccepted
      exact haccepted.2
    have hscanned : Tree.pathOf names ∈ scan config node :=
      (mem_scan_iff hrecursive hinner).mpr
        ⟨names, content, rfl, hat, fun name hname =>
          hkept name ((List.dropLast_sublist names).mem hname)⟩
    exact ⟨Tree.pathOf names, List.mem_filter.mpr ⟨hscanned, haccepted⟩, by rwa [Path.same_comm]⟩

end Project

/-! ## 3. The first event of a path -/

/-- The step is a notice of a path. -/
def Step.isOf (path : Path) : Step → Bool
  | .notice other _ _ => other.same path
  | .stop => false

variable {names : List String} {accepts : Path → Bool} {scanned : PathSet}

theorem lastKind?_eq_none {steps : List Step} {native path : Path}
    (hnative : native.components = (Path.ofNames names).components ++ path.components)
    (hsteps : ∀ step ∈ steps, step.isOf native = false) :
    lastKind? path ((opened names accepts scanned).events steps) = none := by
  cases hlast : lastKind? path ((opened names accepts scanned).events steps) with
  | none => rfl
  | some kind =>
    obtain ⟨front, event, later, hevents, -, hsame, -⟩ := exists_of_lastKind? hlast
    obtain ⟨before, step, rest, rfl, -, hstep⟩ := exists_step_of_events hevents
    have hother := hsteps step (by simp)
    cases step with
    | stop => cases hstep
    | notice other sighting timestamp =>
      have hcomponents := (reports_after hstep).components
      rw [Path.components_eq_of_same hsame, ← hnative] at hcomponents
      rw [Step.isOf, Path.same, hcomponents, beq_self_eq_true] at hother
      exact absurd hother (by simp)

/-- The files that a watcher knows when it starts, and what it says of a path that it is told of for
the first time, when there is a file. -/
structure StartsFrom (watcher : Watcher) (tree : Tree) (base : List String)
    (filter : PathFilter) : Prop where
  root : watcher.root = .ofNames base
  seen (path : Path) :
    watcher.hasSeen path = true ↔ tree.HasFileAt base path ∧ filter.accepts path = true
  first (steps : List Step) (path native : Path) (later : Tree) (timestamp : Nat) :
    .stop ∉ steps → (∀ step ∈ steps, step.isOf native = false) →
    native.components = (Path.ofNames base).components ++ path.components →
    filter.accepts path = true → later.sight native = .file →
    ∃ event, ((watcher.after steps).notice native (later.sight native) timestamp).1 = some event ∧
      event.path.same path = true ∧
      (tree.HasFileAt base path → event.kind = .change) ∧
      (¬ tree.HasFileAt base path → event.kind = .add)

theorem exists_event_of_accepted (scanned : PathSet) {steps : List Step} {native path : Path}
    (timestamp : Nat) (live : .stop ∉ steps)
    (below : native.components = (Path.ofNames names).components ++ path.components)
    (hne : path.components ≠ [])
    (accepted : ∀ relative, relative.same path = true → accepts relative = true) :
    ∃ event, (((opened names accepts scanned).after steps).notice native .file timestamp).1 =
      some event ∧ event.path.same path = true := by
  have hrelative : ∀ relative, (Path.ofNames names).stripBase? native = some relative →
      relative.same path = true := by
    intro relative hrest
    have hcomponents := Path.components_of_stripBase? (components_root_ne_nil names) hrest
    rw [below] at hcomponents
    rw [Path.same, List.append_cancel_left hcomponents, beq_self_eq_true]
  have hheeds : ∃ relative,
      ((opened names accepts scanned).after steps).Heeds native .file relative := by
    rw [exists_heeds_after]
    exact ⟨⟨path.components, hne, below⟩, fun relative hrest => accepted _ (hrelative _ hrest),
      fun h => absurd h (by simp), live⟩
  rw [← isSome_notice _ native .file timestamp] at hheeds
  obtain ⟨event, hevent⟩ := Option.isSome_iff_exists.mp hheeds
  exact ⟨event, hevent, hrelative _ (reports_after hevent).rest⟩

/-- A recursive scan and the filter agree: the known files are all those that the filter lets
through, and so the first event of a file that was there is a change, and that of another is an
add. -/
theorem exists_startsFrom {tree : Tree} {root : Path} {base : List String} {node : Node}
    (config : WatchConfig) (hd : tree.HasDirectory) (horderly : tree.top.IsOrderly)
    (hrecursive : config.recursive = true)
    (hroot : tree.place true root = .ok (.found base node)) :
    ∃ watcher, start tree root config (PathFilter.ofConfig config).accepts = .ok watcher ∧
      watcher.StartsFrom tree base (PathFilter.ofConfig config) := by
  have hscanned := contains_scan_iff hrecursive horderly (Tree.isIn_of_place hd hroot)
  generalize hset : PathSet.ofList _ = scanned at hscanned
  refine ⟨opened base (PathFilter.ofConfig config).accepts scanned, ?_, rfl, hscanned, ?_⟩
  · unfold start
    rw [hroot]
    dsimp only
    rw [hset]
    rfl
  · intro steps path native later timestamp live others below accepted hfile
    have hne : path.components ≠ [] := by
      have hextension : path.extension? ≠ none := by
        rw [PathFilter.accepts, Bool.and_eq_true, PathFilter.isMonitored, Path.hasExtensionIn]
          at accepted
        intro hnone
        simp [hnone] at accepted
      obtain ⟨extension, hsome⟩ := Option.ne_none_iff_exists'.mp hextension
      exact Path.components_ne_nil_of_extension? hsome
    have haccepted : ∀ relative, relative.same path = true →
        (PathFilter.ofConfig config).accepts relative = true :=
      fun relative hsame => by rwa [PathFilter.accepts_congr hsame]
    obtain ⟨event, hevent, hsame⟩ :=
      exists_event_of_accepted scanned timestamp live below hne haccepted
    have hreports := reports_after hevent
    have hnone : lastKind? event.path ((opened base (PathFilter.ofConfig config).accepts
        scanned).events steps) = none :=
      lastKind?_eq_none hreports.components others
    have hcontains : scanned.contains event.path = true ↔ tree.HasFileAt base path := by
      rw [PathSet.contains_congr hsame, hscanned, and_iff_left accepted]
    rw [hfile]
    refine ⟨event, hevent, hsame, fun hthere => ?_, fun hmissing => ?_⟩
    · exact hreports.change.mpr ⟨rfl, .inr (.inr ⟨hnone, hcontains.mpr hthere⟩)⟩
    · exact hreports.add.mpr
        ⟨rfl, .inr ⟨hnone, eq_false_of_ne_true (mt hcontains.mp hmissing)⟩⟩

def builtProject : Tree :=
  .flat [("p", .dir [("a.ts", .file (.text "")), ("dist", .dir [("b.ts", .file (.text ""))])])]

theorem isName_builtProject : ∀ name ∈ ["a.ts", "b.ts", "dist", "p"], Tree.IsName name := by
  simp only [List.forall_mem_cons]
  refine ⟨?_, ?_, ?_, ?_, by simp⟩ <;> constructor <;> decide

theorem isOrderly_builtProject : builtProject.top.IsOrderly := by
  have hdist : (Node.dir [("b.ts", .file (.text ""))]).IsOrderly :=
    Node.isOrderly_dir (by decide)
      (List.forall_mem_singleton.mpr ⟨isName_builtProject _ (by decide), Node.isOrderly_file _⟩)
  refine Node.isOrderly_dir (by decide) (List.forall_mem_singleton.mpr
    ⟨isName_builtProject _ (by decide), Node.isOrderly_dir (by decide) ?_⟩)
  simp only [List.forall_mem_cons]
  exact ⟨⟨isName_builtProject _ (by decide), Node.isOrderly_file _⟩,
    ⟨isName_builtProject _ (by decide), hdist⟩, by simp⟩

theorem sight_builtProject : builtProject.sight ⟨"/p/a.ts"⟩ = .file := by
  have hnames : ∀ name ∈ ["p", "a.ts"], Tree.IsName name :=
    fun name hname => isName_builtProject name (by revert name; decide)
  have hplace : builtProject.place true ⟨"/p/a.ts"⟩ =
      .ok (.found ["p", "a.ts"] (.file (.text ""))) :=
    Tree.place_eq_ok.mpr ⟨by decide, Tree.resolve_names hnames nofun rfl⟩
  unfold Tree.sight Tree.node?
  rw [hplace]
  rfl

theorem startsFrom_builtProject :
    builtProject.HasDirectory ∧ builtProject.top.IsOrderly ∧
      ({} : WatchConfig).recursive = true ∧ ∃ node watcher,
        builtProject.place true ⟨"p"⟩ = .ok (.found ["p"] node) ∧
        start builtProject ⟨"p"⟩ {} (PathFilter.ofConfig {}).accepts = .ok watcher ∧
        watcher.StartsFrom builtProject ["p"] (PathFilter.ofConfig {}) ∧
        watcher.hasSeen ⟨"dist/b.ts"⟩ = false ∧
        ∃ event, ((watcher.after [.notice ⟨"/p/b.ts"⟩ .file 1]).notice ⟨"/p/a.ts"⟩
          (builtProject.sight ⟨"/p/a.ts"⟩) 2).1 = some event ∧ event.kind = .change := by
  have hroot : builtProject.place true ⟨"p"⟩ = .ok (.found ["p"] _) :=
    Tree.place_flat_node (by decide) (by simp) rfl
  obtain ⟨watcher, hstart, hstarts⟩ := exists_startsFrom {} (Tree.hasDirectory_flat _)
    isOrderly_builtProject rfl hroot
  refine ⟨Tree.hasDirectory_flat _, isOrderly_builtProject, rfl, _, watcher, hroot, hstart,
    hstarts, ?_, ?_⟩
  · rw [← Bool.not_eq_true, hstarts.seen]
    exact fun h => absurd h.2 (by decide)
  · obtain ⟨event, hevent, -, hchange, -⟩ := hstarts.first [.notice ⟨"/p/b.ts"⟩ .file 1]
      ⟨"a.ts"⟩ ⟨"/p/a.ts"⟩ builtProject 2 (by decide) (by decide) (by decide) (by decide)
      sight_builtProject
    exact ⟨event, hevent, hchange ⟨["a.ts"], .text "", by decide, rfl⟩⟩

end Watcher

end Scrutiny
