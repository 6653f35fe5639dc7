import Scrutiny.Proofs.Tree.Resaving
import Scrutiny.Proofs.Tree.Walk

/-!
What a walk looks at.  A walk visits the directories that it does not leave out, and reads the
ignore files there and in the directories above the project.  Where these read the same in another
tree, the walk lists the same files.
-/

namespace Scrutiny

/-! ## 1. Visited directories -/

namespace Node

mutual

/-- The directories that a walk visits from an entry on. -/
def dirsBelow (pruning : Pruning) (levels : List IgnoreLevel) (here : List String) :
    Node → List (List String)
  | file _ => []
  | link _ => []
  | dir entries =>
      if IgnoreLevel.excludes levels (pruning.base ++ here) true ||
          here.getLast?.any fun name => pruning.skipDirs.contains name then []
      else here :: dirsAmong pruning ((pruning.level here).under levels) here entries

/-- The directories that a walk visits below one that it is in. -/
def dirsAmong (pruning : Pruning) (levels : List IgnoreLevel) (here : List String) :
    List (String × Node) → List (List String)
  | [] => []
  | (name, node) :: entries =>
      dirsBelow pruning levels (here ++ [name]) node ++ dirsAmong pruning levels here entries

end

mutual

/-- Only the ignore files of visited directories matter to a walk. -/
theorem filesBelow_congr (pruning : Pruning) (level : List String → IgnoreLevel) :
    ∀ (levels : List IgnoreLevel) (here : List String) (node : Node),
      (∀ inner ∈ dirsBelow pruning levels here node, level inner = pruning.level inner) →
        filesBelow { pruning with level } levels here node = filesBelow pruning levels here node
  | _, _, file _, _ => by rw [filesBelow, filesBelow]
  | _, _, link _, _ => by rw [filesBelow, filesBelow]
  | levels, here, dir entries, h => by
      rw [dirsBelow] at h
      rw [filesBelow, filesBelow]
      split
      next => rfl
      next hentered =>
        rw [if_neg hentered, List.forall_mem_cons] at h
        dsimp only
        rw [h.1]
        exact filesAmong_congr pruning level _ here entries h.2

theorem filesAmong_congr (pruning : Pruning) (level : List String → IgnoreLevel) :
    ∀ (levels : List IgnoreLevel) (here : List String) (entries : List (String × Node)),
      (∀ inner ∈ dirsAmong pruning levels here entries, level inner = pruning.level inner) →
        filesAmong { pruning with level } levels here entries =
          filesAmong pruning levels here entries
  | _, _, [], _ => by rw [filesAmong, filesAmong]
  | levels, here, (name, node) :: entries, h => by
      rw [dirsAmong, List.forall_mem_append] at h
      rw [filesAmong, filesAmong, filesBelow_congr pruning level levels _ node h.1,
        filesAmong_congr pruning level levels here entries h.2]

end

end Node

/-! ## 2. Ignore files -/

namespace IgnoreLevel

variable {tree other : Tree} {dir : Path}

/-- The file that says where the repository lies whose working copy is in a directory, if there is
reason to look for one. -/
def commonFile? (tree : Tree) (dir : Path) : Option Path :=
  ((tree.content? (dir.join repositoryName)).bind pointedDir?).map
    fun place => place.join commonName

/-- The files that are looked for in order to know what is ignored in a directory. -/
def sources (tree : Tree) (dir : Path) : List Path :=
  [dir.join plainFile, dir.join trackedFile, dir.join repositoryName] ++
    ((commonFile? tree dir).toList ++
      ((repositoryDir? tree dir).map fun own => own.join untrackedFile).toList)

theorem repositoryDir?_congr
    (hown : other.content? (dir.join repositoryName) = tree.content? (dir.join repositoryName))
    (hcommon : ∀ path ∈ commonFile? tree dir, other.content? path = tree.content? path) :
    repositoryDir? other dir = repositoryDir? tree dir := by
  unfold repositoryDir?
  rw [hown]
  cases hcontent : tree.content? (dir.join repositoryName) with
  | none => rfl
  | some content =>
    dsimp only
    cases hplace : pointedDir? content with
    | none => rfl
    | some place =>
      have hsame := hcommon (place.join commonName) (by simp [commonFile?, hcontent, hplace])
      simp [hsame]

/-- What is ignored in a directory depends on these files only. -/
theorem ofDir_congr (h : ∀ path ∈ sources tree dir, other.content? path = tree.content? path)
    (depth : Nat) : ofDir other depth dir = ofDir tree depth dir := by
  rw [sources, List.forall_mem_append, List.forall_mem_append] at h
  obtain ⟨hnamed, hcommon, huntracked⟩ := h
  have hplain := hnamed (dir.join plainFile) (by simp)
  have htracked := hnamed (dir.join trackedFile) (by simp)
  have hrepository : repositoryDir? other dir = repositoryDir? tree dir :=
    repositoryDir?_congr (hnamed (dir.join repositoryName) (by simp))
      fun path hpath => hcommon path (Option.mem_toList.mpr hpath)
  rw [ofDir, ofDir, hrepository]
  dsimp only
  rw [hplain, htracked]
  cases hdir : repositoryDir? tree dir with
  | none => rfl
  | some own => simp [huntracked (own.join untrackedFile) (by simp [hdir])]

end IgnoreLevel

namespace Tree

variable {tree other : Tree} {skipDirs : List String} {root : Path} {base : List String}

/-- The directories whose ignore files a walk of a project reads. -/
def visited (tree : Tree) (skipDirs : List String) (root : Path) (base : List String) :
    List Path :=
  ((List.range base.length).map fun depth => .ofNames (base.take depth)) ++
    ([] :: Node.dirsAmong (tree.pruning skipDirs root base) (tree.rootLevels root base) []
      (tree.entriesAt false base)).map fun here => root.join (pathOf here)

/-- The files that a walk of a project looks for in order to know what is ignored. -/
def ignoreSources (tree : Tree) (skipDirs : List String) (root : Path) (base : List String) :
    List Path :=
  (tree.visited skipDirs root base).flatMap (IgnoreLevel.sources tree)

theorem outerLevels_congr (h : ∀ depth < base.length,
    IgnoreLevel.ofDir other depth (.ofNames (base.take depth)) =
      IgnoreLevel.ofDir tree depth (.ofNames (base.take depth))) :
    other.outerLevels base = tree.outerLevels base := by
  rw [outerLevels, outerLevels]
  refine List.foldl_ext _ _ _ fun levels depth hdepth => ?_
  rw [h depth (List.mem_range.mp hdepth)]

/-- A walk of the same entries lists the same files where ignore files read the same. -/
theorem filesAmong_congr_sources
    (h : ∀ path ∈ tree.ignoreSources skipDirs root base,
      other.content? path = tree.content? path) :
    Node.filesAmong (other.pruning skipDirs root base) (other.rootLevels root base) []
        (tree.entriesAt false base) =
      Node.filesAmong (tree.pruning skipDirs root base) (tree.rootLevels root base) []
        (tree.entriesAt false base) := by
  have hlevel : ∀ dir ∈ tree.visited skipDirs root base, ∀ depth,
      IgnoreLevel.ofDir other depth dir = IgnoreLevel.ofDir tree depth dir :=
    fun dir hdir depth => IgnoreLevel.ofDir_congr
      (fun path hpath => h path (List.mem_flatMap.mpr ⟨dir, hdir, hpath⟩)) depth
  rw [visited, List.forall_mem_append, List.forall_mem_map, List.forall_mem_map,
    List.forall_mem_cons] at hlevel
  obtain ⟨houter, hroot, hinner⟩ := hlevel
  have hlevels : other.rootLevels root base = tree.rootLevels root base := by
    have houterLevels : other.outerLevels base = tree.outerLevels base :=
      outerLevels_congr fun depth hdepth => houter depth (List.mem_range.mpr hdepth) depth
    rw [rootLevels, rootLevels, houterLevels]
    exact congrArg (fun level => IgnoreLevel.under level _) (hroot _)
  rw [hlevels]
  exact Node.filesAmong_congr (tree.pruning skipDirs root base) _ _ _ _
    fun here hhere => hinner here hhere _

end Tree

/-! ## 3. Orderly trees -/

/-- In every directory the names of the entries are distinct, and are names. -/
def Node.IsOrderly (node : Node) : Prop :=
  ∀ names entries, node.at? names = some (.dir entries) →
    (entries.map Prod.fst).Nodup ∧ ∀ name ∈ entries.map Prod.fst, Tree.IsName name

namespace Node

variable {pruning : Pruning}

theorem lookup_of_mem {name : String} {node : Node} {entries : List (String × Node)}
    (hnodup : (entries.map Prod.fst).Nodup) (h : (name, node) ∈ entries) :
    entries.lookup name = some node := by
  obtain ⟨front, back, rfl⟩ := List.append_of_mem h
  refine List.lookup_eq_some_iff.mpr ⟨front, back, rfl, fun entry hentry => ?_⟩
  rw [bne_iff_ne]
  rintro rfl
  rw [List.map_append, List.map_cons, List.nodup_append] at hnodup
  exact hnodup.2.2 _ (List.mem_map_of_mem hentry) _ List.mem_cons_self rfl

theorem IsOrderly.entry {entries : List (String × Node)} (h : (dir entries).IsOrderly)
    {name : String} {node : Node} (hmem : (name, node) ∈ entries) :
    Tree.IsName name ∧ (dir entries).child? name = some node ∧ node.IsOrderly := by
  obtain ⟨hnodup, hnames⟩ := h [] entries (at?_nil _)
  have hchild : (dir entries).child? name = some node := lookup_of_mem hnodup hmem
  refine ⟨hnames name (List.mem_map_of_mem (f := Prod.fst) hmem), hchild, ?_⟩
  intro names others hothers
  refine h (name :: names) others ?_
  rw [at?_cons, hchild]
  exact hothers

theorem isOrderly_file (content : Content) : (file content).IsOrderly := by
  intro names entries hat
  cases names with
  | nil => simp at hat
  | cons name names => simp [at?_cons, child?] at hat

theorem isOrderly_dir {entries : List (String × Node)} (hnodup : (entries.map Prod.fst).Nodup)
    (h : ∀ entry ∈ entries, Tree.IsName entry.1 ∧ entry.2.IsOrderly) :
    (dir entries).IsOrderly := by
  intro names others hat
  cases names with
  | nil =>
    rw [at?_nil, Option.some.injEq, dir.injEq] at hat
    subst hat
    exact ⟨hnodup, List.forall_mem_map.mpr fun entry hentry => (h entry hentry).1⟩
  | cons name names =>
    rw [at?_cons] at hat
    obtain ⟨node, hchild, hbelow⟩ := Option.bind_eq_some_iff.mp hat
    exact (h (name, node) (mem_of_lookup hchild)).2 names others hbelow

theorem IsOrderly.at? {node inner : Node} {names : List String} (h : node.IsOrderly)
    (hat : node.at? names = some inner) : inner.IsOrderly := by
  intro others entries hentries
  refine h (names ++ others) entries ?_
  rw [at?_append, hat]
  exact hentries

theorem IsOrderly.isName {node found : Node} {names : List String} (h : node.IsOrderly)
    (hat : node.at? names = some found) : ∀ name ∈ names, Tree.IsName name := by
  induction names generalizing node with
  | nil => exact List.forall_mem_nil _
  | cons name names ih =>
    rw [at?_cons] at hat
    obtain ⟨child, hchild, hbelow⟩ := Option.bind_eq_some_iff.mp hat
    cases node with
    | file content => exact nomatch hchild
    | link target => exact nomatch hchild
    | dir entries =>
      obtain ⟨hname, -, hinner⟩ := h.entry (mem_of_lookup hchild)
      exact List.forall_mem_cons.mpr ⟨hname, ih hinner hbelow⟩

mutual

/-- Whatever a walk of an orderly tree lists is a file there, under names. -/
theorem at?_of_mem_filesBelow : ∀ (levels : List IgnoreLevel) (here : List String) (node : Node),
    node.IsOrderly → ∀ listed ∈ filesBelow pruning levels here node,
      ∃ names content, listed = here ++ names ∧ (∀ name ∈ names, Tree.IsName name) ∧
        node.at? names = some (file content)
  | levels, here, file content, _, listed, h => by
      rw [filesBelow] at h
      split at h
      · simp at h
      · exact ⟨[], content, by simpa using h, by simp, at?_nil _⟩
  | levels, here, link target, _, listed, h => by
      rw [filesBelow] at h
      simp at h
  | levels, here, dir entries, horderly, listed, h => by
      rw [filesBelow] at h
      split at h
      · simp at h
      · obtain ⟨name, node, hmem, names, content, hlisted, hnames, hat⟩ :=
          at?_of_mem_filesAmong _ here entries
            (fun name node hmem => (horderly.entry hmem).2.2) listed h
        obtain ⟨hname, hchild, -⟩ := horderly.entry hmem
        refine ⟨name :: names, content, hlisted, List.forall_mem_cons.mpr ⟨hname, hnames⟩, ?_⟩
        rw [at?_cons, hchild]
        exact hat

theorem at?_of_mem_filesAmong :
    ∀ (levels : List IgnoreLevel) (here : List String) (entries : List (String × Node)),
    (∀ name node, (name, node) ∈ entries → node.IsOrderly) →
      ∀ listed ∈ filesAmong pruning levels here entries,
        ∃ name node, (name, node) ∈ entries ∧ ∃ names content,
          listed = here ++ name :: names ∧ (∀ name ∈ names, Tree.IsName name) ∧
            node.at? names = some (file content)
  | levels, here, [], _, listed, h => by
      rw [filesAmong] at h
      simp at h
  | levels, here, (name, node) :: entries, horderly, listed, h => by
      rw [filesAmong, List.mem_append] at h
      rcases h with hfirst | hrest
      · obtain ⟨names, content, rfl, hnames, hat⟩ := at?_of_mem_filesBelow levels (here ++ [name])
          node (horderly name node List.mem_cons_self) listed hfirst
        exact ⟨name, node, List.mem_cons_self, names, content, by simp, hnames, hat⟩
      · obtain ⟨other, child, hmem, hfound⟩ := at?_of_mem_filesAmong levels here entries
          (fun other child hmem => horderly other child (List.mem_cons_of_mem _ hmem)) listed hrest
        exact ⟨other, child, List.mem_cons_of_mem _ hmem, hfound⟩

end

end Node

namespace Tree

variable {tree : Tree} {skipDirs : List String} {root : Path} {base : List String}

theorem isOrderly_entriesAt (hd : tree.HasDirectory) (horderly : tree.top.IsOrderly)
    (hbase : tree.dirNames? root = some base) :
    (Node.dir (tree.entriesAt false base)).IsOrderly :=
  horderly.at? (at?_base hd hbase)

/-- A project's files are files below its directory. -/
theorem at?_of_mem_files (hd : tree.HasDirectory) (horderly : tree.top.IsOrderly)
    (hbase : tree.dirNames? root = some base) {path : Path}
    (h : path ∈ tree.files skipDirs false root) :
    ∃ names content, path = pathOf names ∧ names ≠ [] ∧ (∀ name ∈ names, IsName name) ∧
      tree.top.at? (base ++ names) = some (.file content) := by
  have hdir := at?_base hd hbase
  have hentries := isOrderly_entriesAt hd horderly hbase
  rw [files_eq skipDirs hbase, List.mem_map] at h
  obtain ⟨listed, hlisted, rfl⟩ := h
  obtain ⟨name, node, hmem, names, content, rfl, hnames, hat⟩ := Node.at?_of_mem_filesAmong _ _ _
    (fun name node hmem => (hentries.entry hmem).2.2) listed hlisted
  obtain ⟨hname, hchild, -⟩ := hentries.entry hmem
  refine ⟨name :: names, content, rfl, List.cons_ne_nil _ _,
    List.forall_mem_cons.mpr ⟨hname, hnames⟩, ?_⟩
  rw [Node.at?_append, hdir, Option.bind_some, Node.at?_cons, hchild]
  exact hat

/-- The path of a project's file leads to the file, unless it is too long. -/
theorem fileNames?_join_pathOf (hd : tree.HasDirectory) (hbase : tree.dirNames? root = some base)
    {names : List String} (hnames : ∀ name ∈ names, IsName name) (hne : names ≠ [])
    {content : Content} (hat : tree.top.at? (base ++ names) = some (.file content)) :
    tree.fileNames? (root.join (pathOf names)) =
      if flaw? (root.join (pathOf names)) = none then some (base ++ names) else none := by
  obtain ⟨entries, hroot⟩ := dirNames?_eq_some.mp hbase
  split
  next hflaw =>
    exact fileNames?_eq_some.mpr
      ⟨content, place_join_pathOf hd hroot hnames hne (by simp) hat hflaw⟩
  next hflaw =>
    rw [Option.eq_none_iff_forall_ne_some]
    intro others hothers
    obtain ⟨_, hplace⟩ := fileNames?_eq_some.mp hothers
    exact hflaw (place_eq_ok.mp hplace).1

end Tree

end Scrutiny
