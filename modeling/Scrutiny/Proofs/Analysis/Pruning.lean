import Scrutiny.Proofs.Analysis.Collection
import Scrutiny.Proofs.Path
import Scrutiny.Proofs.Tree.Visits

/-!
Skipped directories in a walk.  What a walk lists is told by the names that lead to it: a file of
the project that no ignore file excludes, and with no skipped directory above it.  So not to enter
a skipped directory gives the same files as to enter it and leave them out afterwards.
-/

namespace Scrutiny

/-! ## 1. What a walk lists -/

namespace Node

variable {pruning : Pruning}

-- The induction is on the names: each one belongs to the entry that the walk takes next.
theorem exists_of_mem_filesAmong {levels : List IgnoreLevel} (here : List String)
    {names : List String} {entries : List (String × Node)} (horderly : (dir entries).IsOrderly)
    (h : here ++ names ∈ filesAmong pruning levels here entries) :
    ∃ content inner, (dir entries).at? names = some (file content) ∧
      IgnoreLevel.within? pruning.base pruning.level levels here names.dropLast = some inner ∧
      IgnoreLevel.excludes inner (pruning.base ++ (here ++ names)) false = false ∧
      ∀ name ∈ names.dropLast, pruning.skipDirs.contains name = false := by
  induction names generalizing levels here entries with
  | nil =>
    obtain ⟨name, node, -, rest, content, hlisted, -⟩ :=
      at?_of_mem_filesAmong levels here entries (fun _ _ hmem => (horderly.entry hmem).2.2) _ h
    simp at hlisted
  | cons first names ih =>
    rw [filesAmong_eq_flatMap, List.mem_flatMap] at h
    obtain ⟨⟨name, node⟩, hmem, hlisted⟩ := h
    obtain ⟨-, hchild, hinner⟩ := horderly.entry hmem
    obtain ⟨rest, content, hnames, -, hbelow⟩ :=
      at?_of_mem_filesBelow levels (here ++ [name]) node hinner _ hlisted
    have hsplit : first :: names = name :: rest := by
      rw [List.append_assoc] at hnames
      exact List.append_cancel_left hnames
    obtain ⟨rfl, rfl⟩ := List.cons.inj hsplit
    have hat : (dir entries).at? (first :: names) = some (file content) := by
      rw [at?_cons, hchild]
      exact hbelow
    cases node with
    | link target => simp [filesBelow] at hlisted
    | file other =>
      have hend : names = [] := by
        cases names with
        | nil => rfl
        | cons next names => simp [at?_cons, child?] at hbelow
      subst hend
      rw [filesBelow] at hlisted
      split at hlisted
      next => exact absurd hlisted List.not_mem_nil
      next hkept =>
        exact ⟨content, levels, hat, rfl, eq_false_of_ne_true hkept, by simp⟩
    | dir others =>
      rw [filesBelow] at hlisted
      split at hlisted
      next => exact absurd hlisted List.not_mem_nil
      next hentered =>
        rw [List.getLast?_concat, Option.any_some, Bool.or_eq_true, not_or, Bool.not_eq_true,
          Bool.not_eq_true] at hentered
        have hhere : here ++ first :: names = here ++ [first] ++ names := by simp
        rw [hhere] at hlisted ⊢
        obtain ⟨_, inner, -, hwithin, hkept, hskip⟩ := ih _ hinner hlisted
        cases names with
        | nil => simp at hbelow
        | cons next names =>
          refine ⟨content, inner, hat, ?_, hkept, ?_⟩
          · rw [List.dropLast_cons_cons, IgnoreLevel.within?,
              if_neg (by rw [hentered.1]; exact Bool.false_ne_true)]
            exact hwithin
          · rw [List.dropLast_cons_cons, List.forall_mem_cons]
            exact ⟨hentered.2, hskip⟩

-- Files of different entries have different names right behind the names so far.
mutual

theorem nodup_filesBelow : ∀ (levels : List IgnoreLevel) (here : List String) (node : Node),
    node.IsOrderly → (filesBelow pruning levels here node).Nodup
  | levels, here, file content, _ => by
      rw [filesBelow]
      split
      · exact List.nodup_nil
      · exact List.pairwise_singleton _ here
  | levels, here, link target, _ => by
      rw [filesBelow]
      exact List.nodup_nil
  | levels, here, dir entries, horderly => by
      rw [filesBelow]
      split
      · exact List.nodup_nil
      · exact nodup_filesAmong _ here entries (horderly [] entries (at?_nil _)).1
          fun _ _ hmem => (horderly.entry hmem).2.2

theorem nodup_filesAmong :
    ∀ (levels : List IgnoreLevel) (here : List String) (entries : List (String × Node)),
    (entries.map Prod.fst).Nodup → (∀ name node, (name, node) ∈ entries → node.IsOrderly) →
      (filesAmong pruning levels here entries).Nodup
  | levels, here, [], _, _ => by
      rw [filesAmong]
      exact List.nodup_nil
  | levels, here, (name, node) :: entries, hnodup, horderly => by
      rw [List.map_cons, List.nodup_cons] at hnodup
      have hfirst := horderly name node List.mem_cons_self
      have hrest := fun other child (hmem : (other, child) ∈ entries) =>
        horderly other child (List.mem_cons_of_mem _ hmem)
      rw [filesAmong, List.nodup_append]
      refine ⟨nodup_filesBelow levels (here ++ [name]) node hfirst,
        nodup_filesAmong levels here entries hnodup.2 hrest, ?_⟩
      rintro listed hlisted _ hother rfl
      obtain ⟨front, -, hnames, -⟩ :=
        at?_of_mem_filesBelow levels (here ++ [name]) node hfirst _ hlisted
      obtain ⟨other, child, hmem, back, -, hothers, -⟩ :=
        at?_of_mem_filesAmong levels here entries hrest _ hother
      rw [hnames, List.append_assoc] at hothers
      obtain ⟨rfl, -⟩ := List.cons.inj (List.append_cancel_left hothers)
      exact hnodup.1 (List.mem_map.mpr ⟨(name, child), hmem, rfl⟩)

end

end Node

namespace Tree

variable {tree : Tree} {root : Path} {base names : List String} {skipDirs : List String}
  {path : Path}

theorem isName_of_at? (horderly : tree.top.IsOrderly) {node : Node}
    (hat : tree.top.at? (base ++ names) = some node) : ∀ name ∈ names, IsName name :=
  fun name hname => horderly.isName hat name (List.mem_append_right base hname)

/-- The path leads from the project to a file, past nothing that ignore files exclude. -/
def Lists (tree : Tree) (root : Path) (base : List String) (path : Path) : Prop :=
  ∃ names content, path = pathOf names ∧ tree.top.at? (base ++ names) = some (.file content) ∧
    tree.ignores root base names = false

theorem mem_files_iff (hd : tree.HasDirectory) (horderly : tree.top.IsOrderly)
    (hbase : tree.dirNames? root = some base) : path ∈ tree.files skipDirs false root ↔
      ∃ names content, path = pathOf names ∧
        tree.top.at? (base ++ names) = some (.file content) ∧
        tree.ignores root base names = false ∧
        ∀ name ∈ names.dropLast, skipDirs.contains name = false := by
  constructor
  · intro hpath
    rw [files_eq skipDirs hbase, List.mem_map] at hpath
    obtain ⟨names, hnames, rfl⟩ := hpath
    have hentries := isOrderly_entriesAt hd horderly hbase
    obtain ⟨content, inner, hat, hwithin, hkept, hskip⟩ :=
      Node.exists_of_mem_filesAmong [] hentries hnames
    refine ⟨names, content, rfl, ?_, ?_, hskip⟩
    · rw [Node.at?_append, at?_base hd hbase]
      exact hat
    · rw [ignores, IgnoreLevel.ignores]
      exact hwithin ▸ hkept
  · rintro ⟨names, content, rfl, hfile, hkept, hskip⟩
    exact mem_files hd hbase hfile hkept hskip

theorem pairwise_files (hd : tree.HasDirectory) (horderly : tree.top.IsOrderly)
    (hbase : tree.dirNames? root = some base) :
    (tree.files skipDirs false root).Pairwise fun p q => p.same q = false := by
  have hentries := isOrderly_entriesAt hd horderly hbase
  have hnames : ∀ names ∈ Node.filesAmong (tree.pruning skipDirs root base)
      (tree.rootLevels root base) [] (tree.entriesAt false base), ∀ name ∈ names, IsName name := by
    intro names hmem
    obtain ⟨_, _, hat, -⟩ := Node.exists_of_mem_filesAmong [] hentries hmem
    exact hentries.isName hat
  have hnodup : (Node.filesAmong (tree.pruning skipDirs root base) (tree.rootLevels root base) []
      (tree.entriesAt false base)).Nodup :=
    Node.nodup_filesAmong _ [] _ (hentries [] _ (Node.at?_nil _)).1
      fun _ _ hmem => (hentries.entry hmem).2.2
  rw [files_eq skipDirs hbase, List.pairwise_map]
  refine hnodup.imp_of_mem fun {names others} hmem hother hne => ?_
  rw [← Bool.not_eq_true]
  exact fun hsame => hne (pathOf_inj (hnames names hmem) (hnames others hother) hsame)

end Tree

/-! ## 2. The files of a project -/

/-- The paths are those of the project's files that are worth reading and lie in no skipped
directory, in order. -/
structure Collects (tree : Tree) (root : Path) (base skipDirs : List String)
    (paths : List Path) : Prop where
  sorted : paths.Pairwise fun p q => p.order q = .lt
  isAbsolute : ∀ path ∈ paths, path.isAbsolute = false
  mem_iff : ∀ path, path ∈ paths ↔ tree.Lists root base path ∧ path.isAnalyzable = true ∧
    skipDirs.any path.hasComponent = false

variable {tree : Tree} {root : Path} {base : List String}

theorem collects_projectPaths (hd : tree.HasDirectory) (horderly : tree.top.IsOrderly)
    (hbase : tree.dirNames? root = some base) (skipDirs : List String) :
    ∃ paths, projectPaths tree skipDirs false root = .ok paths ∧
      Collects tree root base skipDirs paths := by
  have hdir : tree.isDir root = true := by
    obtain ⟨entries, hplace⟩ := Tree.dirNames?_eq_some.mp hbase
    exact Tree.isDir_eq_true.mpr ⟨base, entries, hplace⟩
  refine ⟨_, if_pos hdir, ?_, ?_, ?_⟩
  · exact Path.pairwise_mergeSort_le ((Tree.pairwise_files hd horderly hbase).filter _)
  · intro path hpath
    rw [List.mem_mergeSort, List.mem_filter, Tree.mem_files_iff hd horderly hbase] at hpath
    obtain ⟨⟨names, content, rfl, hfile, -⟩, -⟩ := hpath
    rw [Path.isAbsolute, Tree.lead_pathOf (Tree.isName_of_at? horderly hfile)]
    rfl
  · intro path
    rw [List.mem_mergeSort, List.mem_filter, Tree.mem_files_iff hd horderly hbase,
      Bool.and_eq_true, Bool.not_eq_true']
    constructor
    · rintro ⟨⟨names, content, rfl, hfile, hkept, -⟩, hanalyzable, hskip⟩
      exact ⟨⟨names, content, rfl, hfile, hkept⟩, hanalyzable, hskip⟩
    · rintro ⟨⟨names, content, rfl, hfile, hkept⟩, hanalyzable, hskip⟩
      have hnames := Tree.isName_of_at? horderly hfile
      -- a skipped directory above the file is one of the path's components
      have habove := (Tree.any_hasComponent_pathOf hnames).mp hskip
      exact ⟨⟨names, content, rfl, hfile, hkept,
        fun name hname => habove name (List.dropLast_subset names hname)⟩, hanalyzable, hskip⟩

/-- Not to enter skipped directories is to leave out afterwards what has one of their names among
its components.  Either way the paths are in order, without repetition, relative to the project and
worth reading. -/
theorem projectPaths_skipDirs (hd : tree.HasDirectory) (horderly : tree.top.IsOrderly)
    (hroot : tree.isDir root = true) (skipDirs : List String) :
    ∃ base paths all, tree.dirNames? root = some base ∧
      projectPaths tree skipDirs false root = .ok paths ∧
      projectPaths tree [] false root = .ok all ∧
      Collects tree root base skipDirs paths ∧ Collects tree root base [] all ∧
      paths = all.filter fun path => !skipDirs.any path.hasComponent := by
  obtain ⟨base, entries, hplace⟩ := Tree.isDir_eq_true.mp hroot
  have hbase : tree.dirNames? root = some base := Tree.dirNames?_eq_some.mpr ⟨entries, hplace⟩
  obtain ⟨paths, hpaths, hcollects⟩ := collects_projectPaths hd horderly hbase skipDirs
  obtain ⟨all, hall, hcollectsAll⟩ := collects_projectPaths hd horderly hbase []
  refine ⟨base, paths, all, hbase, hpaths, hall, hcollects, hcollectsAll, ?_⟩
  refine Path.eq_of_pairwise_order hcollects.sorted (hcollectsAll.sorted.filter _) fun path => ?_
  rw [hcollects.mem_iff, List.mem_filter, hcollectsAll.mem_iff, Bool.not_eq_true']
  simp [and_assoc]

namespace Sample

/-- A project with a file of its own and one in a directory of generated files. -/
def builtEntries : List (String × Node) :=
  [("a.ts", .file (.text "")), ("dist", .dir [("b.ts", .file (.text ""))])]

theorem isOrderly_built : (Node.dir builtEntries).IsOrderly := by
  have hfile : ∀ name ∈ ["a.ts", "b.ts", "dist"], Tree.IsName name := by
    simp only [List.forall_mem_cons]
    refine ⟨?_, ?_, ?_, by simp⟩ <;> constructor <;> decide
  refine Node.isOrderly_dir (by decide) ?_
  simp only [builtEntries, List.forall_mem_cons]
  refine ⟨⟨hfile _ (by decide), Node.isOrderly_file _⟩, ⟨hfile _ (by decide), ?_⟩, by simp⟩
  refine Node.isOrderly_dir (by decide) ?_
  rw [List.forall_mem_singleton]
  exact ⟨hfile _ (by decide), Node.isOrderly_file _⟩

theorem projectPaths_skipDirs_built :
    let tree := Tree.flat builtEntries
    tree.HasDirectory ∧ tree.top.IsOrderly ∧ tree.isDir top = true ∧
      ∃ base paths all, tree.dirNames? top = some base ∧
        projectPaths tree ["dist"] false top = .ok paths ∧
        projectPaths tree [] false top = .ok all ∧
        Collects tree top base ["dist"] paths ∧ Collects tree top base [] all ∧
        paths = (all.filter fun path => !(["dist"].any path.hasComponent)) ∧
        ⟨"a.ts"⟩ ∈ paths ∧ ⟨"dist/b.ts"⟩ ∉ paths := by
  intro tree
  have hd := Tree.hasDirectory_flat builtEntries
  have hroot := isDir_top builtEntries
  obtain ⟨base, paths, all, hbase, hpaths, hall, hcollects, hcollectsAll, hfilter⟩ :=
    projectPaths_skipDirs hd isOrderly_built hroot ["dist"]
  refine ⟨hd, isOrderly_built, hroot, base, paths, all, hbase, hpaths, hall, hcollects,
    hcollectsAll, hfilter, ?_, ?_⟩
  · obtain rfl : [] = base := Option.some.inj ((dirNames?_top builtEntries).symm.trans hbase)
    have hlists : tree.Lists top [] ⟨"a.ts"⟩ :=
      ⟨["a.ts"], .text "", by decide, rfl, ignores_top rfl rfl rfl "a.ts"⟩
    exact (hcollects.mem_iff ⟨"a.ts"⟩).mpr ⟨hlists, by decide, by decide⟩
  · intro hmem
    have hskip := ((hcollects.mem_iff ⟨"dist/b.ts"⟩).mp hmem).2.2
    exact absurd hskip (by decide)

end Sample

end Scrutiny
