import Scrutiny.Proofs.Stripping

/-!
What a walk lists.  A walk gets to a file unless ignore files exclude the file or a directory above
it, or such a directory has a skipped name; the path that it gives has the file's names as its
components.
-/

namespace Scrutiny

/-! ## 1. Names -/

/-- A name that an entry of a directory can have. -/
structure Tree.IsName (name : String) : Prop where
  nonempty : name ≠ ""
  current : name ≠ "."
  parent : name ≠ ".."
  slash : '/' ∉ name.toList
  length : name.utf8ByteSize ≤ Tree.longestName

namespace Tree

variable {names : List String}

theorem toList_pathOf (names : List String) :
    (pathOf names).text.toList = ['/'].intercalate (names.map String.toList) := by
  rw [pathOf, String.toList_intercalate]
  rfl

theorem slash_not_mem (h : ∀ name ∈ names, IsName name) :
    ∀ segment ∈ names.map String.toList, '/' ∉ segment := by
  rw [List.forall_mem_map]
  exact fun name hname => (h name hname).slash

theorem IsName.not_isTrivial {name : String} (h : IsName name) :
    Path.isTrivial name.toList = false := by
  have hempty : name.toList ≠ [] := fun heq => h.nonempty (String.toList_eq_nil_iff.mp heq)
  have hcurrent : name.toList ≠ ['.'] := fun heq => h.current (String.toList_inj.mp heq)
  simp [Path.isTrivial, hempty, hcurrent]

theorem IsName.toList_ne_parent {name : String} (h : IsName name) : name.toList ≠ ['.', '.'] :=
  fun heq => h.parent (String.toList_inj.mp heq)

theorem pathOf_eq_ofSegments (names : List String) :
    pathOf names = Path.ofSegments [] (names.map String.toList) := by
  rw [Path.ofSegments, List.nil_append, ← toList_pathOf, String.ofList_toList]

theorem head?_not_isTrivial (h : ∀ name ∈ names, IsName name) :
    ∀ segment ∈ (names.map String.toList).head?, Path.isTrivial segment = false := by
  cases names with
  | nil => simp
  | cons name names => simpa using (h name List.mem_cons_self).not_isTrivial

theorem lead_pathOf (h : ∀ name ∈ names, IsName name) : (pathOf names).lead = [] := by
  rw [pathOf_eq_ofSegments]
  exact Path.lead_ofSegments (slash_not_mem h) (head?_not_isTrivial h)

/-- The components of a path of names are the names. -/
theorem components_pathOf (h : ∀ name ∈ names, IsName name) :
    (pathOf names).components = names.map Component.normal := by
  rw [pathOf_eq_ofSegments,
    Path.components_ofSegments (slash_not_mem h) (head?_not_isTrivial h), List.filterMap_map,
    ← List.filterMap_eq_map]
  refine List.filterMap_congr fun name hname => ?_
  have hsegment := h name hname
  rw [Function.comp_apply, Path.componentOf, if_neg (by simp [hsegment.not_isTrivial]),
    if_neg (by simpa using hsegment.toList_ne_parent), String.ofList_toList]
  rfl

theorem hasComponent_pathOf (h : ∀ name ∈ names, IsName name) (name : String) :
    (pathOf names).hasComponent name = names.contains name := by
  rw [Path.hasComponent, components_pathOf h, List.any_map, List.contains_eq_any_beq]
  refine congrArg (List.any names) (funext fun other => ?_)
  exact BEq.comm

theorem any_hasComponent_pathOf {skipDirs names : List String}
    (hnames : ∀ name ∈ names, IsName name) :
    skipDirs.any (pathOf names).hasComponent = false ↔
      ∀ name ∈ names, skipDirs.contains name = false := by
  rw [List.any_eq_false]
  constructor
  · intro h name hname
    rw [← Bool.not_eq_true, List.contains_iff_mem]
    exact fun hmem => h name hmem (by rwa [hasComponent_pathOf hnames, List.contains_iff_mem])
  · intro h name hmem hname
    rw [hasComponent_pathOf hnames, List.contains_iff_mem] at hname
    have hnot := h name hname
    rw [List.contains_iff_mem.mpr hmem] at hnot
    exact Bool.noConfusion hnot

theorem pathOf_inj {others : List String} (hnames : ∀ name ∈ names, IsName name)
    (hothers : ∀ name ∈ others, IsName name) (h : (pathOf names).same (pathOf others) = true) :
    names = others := by
  rw [Path.same, beq_iff_eq, components_pathOf hnames, components_pathOf hothers] at h
  exact List.map_injective_iff.mpr (fun _ _ => Component.normal.inj) h

theorem plainSteps_pathOf (h : ∀ name ∈ names, IsName name) :
    plainSteps (pathOf names).text = names.map .enter := by
  have htext : (pathOf names).text =
      String.ofList (['/'].intercalate (names.map String.toList)) := by
    rw [← toList_pathOf, String.ofList_toList]
  rw [htext, plainSteps_intercalate (slash_not_mem h), List.filterMap_map, ← List.filterMap_eq_map]
  refine List.filterMap_congr fun name hname => ?_
  have hsegment := h name hname
  have htrivial := hsegment.not_isTrivial
  rw [Path.isTrivial, Bool.or_eq_false_iff] at htrivial
  rw [Function.comp_apply, Step.ofSegment, if_neg (by simpa using htrivial.1),
    if_neg (by simpa using htrivial.2), if_neg (by simpa using hsegment.toList_ne_parent),
    String.ofList_toList]
  rfl

-- The last character of a path of names is that of the last name.
theorem getLast?_pathOf (h : ∀ name ∈ names, IsName name) (hne : names ≠ []) :
    ∃ c ≠ '/', (pathOf names).text.toList.getLast? = some c := by
  obtain ⟨front, last, rfl⟩ := (List.eq_nil_or_concat names).resolve_left hne
  have hlast := h last (by simp)
  have hchars : last.toList ≠ [] := fun heq => hlast.nonempty (String.toList_eq_nil_iff.mp heq)
  obtain ⟨before, hbefore⟩ :
      ∃ before, (pathOf (front ++ [last])).text.toList = before ++ last.toList := by
    rw [toList_pathOf, List.map_append]
    by_cases hfront : front = []
    · exact ⟨[], by simp [hfront]⟩
    · refine ⟨['/'].intercalate (front.map String.toList) ++ ['/'], ?_⟩
      rw [Path.intercalate_append (by simpa using hfront) (by simp)]
      simp
  refine ⟨last.toList.getLast hchars, fun heq => hlast.slash (heq ▸ List.getLast_mem hchars), ?_⟩
  rw [List.concat_eq_append, hbefore, List.getLast?_append_of_ne_nil _ hchars,
    List.getLast?_eq_getLast_of_ne_nil hchars]

/-! ## 2. Names below a directory -/

section Below

variable {tree : Tree} {root : Path} {base : List String} {entries : List (String × Node)}

/-- Names lead on from the end of a trail to the node that lies under them. -/
theorem resolve_names {links : Nat} {trail : Trail} {node : Node}
    (h : ∀ name ∈ names, IsName name) (hnode : ∀ target, node ≠ .link target)
    (hat : (tree.nodeOn trail).at? names = some node) :
    tree.resolve true links trail (names.map .enter) =
      .ok (.found (trail.names ++ names) node) := by
  induction names generalizing trail with
  | nil =>
    rw [Node.at?_nil, Option.some.injEq] at hat
    rw [List.map_nil, resolve_nil, List.append_nil, hat]
  | cons name names ih =>
    rw [List.forall_mem_cons] at h
    rw [Node.at?_cons] at hat
    obtain ⟨child, hchild, hbelow⟩ := Option.bind_eq_some_iff.mp hat
    obtain ⟨entries, hdir, hlookup⟩ :
        ∃ entries, tree.nodeOn trail = .dir entries ∧ entries.lookup name = some child := by
      cases hend : tree.nodeOn trail with
      | dir entries => exact ⟨entries, rfl, by rwa [hend] at hchild⟩
      | file content => simp [hend, Node.child?] at hchild
      | link target => simp [hend, Node.child?] at hchild
    -- names below a link lead nowhere
    have hlink : ∀ target, child ≠ .link target := by
      rintro target rfl
      cases names with
      | nil =>
        rw [Node.at?_nil, Option.some.injEq] at hbelow
        exact hnode target hbelow.symm
      | cons next names => simp [Node.at?_cons, Node.child?] at hbelow
    have hrest : tree.resolve true links ((name, child) :: trail) (names.map .enter) = _ :=
      ih h.2 hbelow
    rw [List.map_cons, resolve_enter_node hdir (not_lt.mpr h.1.length) hlookup hlink, hrest,
      Trail.names_cons, List.append_assoc]
    rfl

/-- A path of names that is joined to one that leads to a directory leads to what lies under the
names there, unless the path is too long. -/
theorem place_join_pathOf (hd : tree.HasDirectory)
    (hroot : tree.place true root = .ok (.found base (.dir entries)))
    (h : ∀ name ∈ names, IsName name) (hne : names ≠ []) {node : Node}
    (hnode : ∀ target, node ≠ .link target) (hat : tree.top.at? (base ++ names) = some node)
    (hflaw : flaw? (root.join (pathOf names)) = none) :
    tree.place true (root.join (pathOf names)) = .ok (.found (base ++ names) node) := by
  obtain ⟨hrootFlaw, hresolve⟩ := (place_eq_dir hd).mp hroot
  obtain ⟨links, trail, hleads, rfl, hend, hback⟩ :=
    exists_resolve_append (leads_start hd root) hresolve
  have hrootText : root.text ≠ "" := by
    intro hempty
    simp [flaw?, hempty] at hrootFlaw
  have habsolute : (pathOf names).isAbsolute = false := by
    rw [Path.isAbsolute, lead_pathOf h]
    rfl
  have hstart : tree.start (root.join (pathOf names)) = tree.start root := by
    rw [start, start, Path.isAbsolute_join hrootText habsolute]
  have hslash : endsInSlash (root.join (pathOf names)).text = false := by
    obtain ⟨c, hc, hlast⟩ := getLast?_pathOf h hne
    have hchars : (pathOf names).text.toList ≠ [] := by
      intro hnil
      simp [hnil] at hlast
    have hjoined : (root.join (pathOf names)).text.toList.getLast? = some c := by
      rcases Path.toList_join hrootText habsolute with hjoin | ⟨front, -, hjoin⟩ <;>
        rw [hjoin, List.getLast?_append_of_ne_nil _ (by simp), List.getLast?_cons_of_ne_nil hchars,
          hlast]
    simp [endsInSlash, hjoined, hc]
  rw [place_eq_ok, stepsOf, hslash, if_neg Bool.false_ne_true, List.append_nil, hstart,
    Path.plainSteps_join hrootText habsolute, plainSteps_pathOf h, hback]
  refine ⟨hflaw, resolve_names h hnode ?_⟩
  rw [Node.at?_append, at?_names hleads] at hat
  exact hat

end Below

end Tree

/-! ## 3. Files that a walk gets to -/

namespace IgnoreLevel

variable (base : List String) (level : List String → IgnoreLevel)

/-- The ignore files that hold in the directory that names lead to, nearest first, unless they
exclude that directory or one above it.  `levels` hold in the directory `here`. -/
def within? (levels : List IgnoreLevel) (here : List String) :
    List String → Option (List IgnoreLevel)
  | [] => some levels
  | name :: names =>
      if excludes levels (base ++ (here ++ [name])) true then none
      else within? ((level (here ++ [name])).under levels) (here ++ [name]) names

/-- Whether ignore files exclude the file that names lead to, or a directory above it. -/
def ignores (levels : List IgnoreLevel) (names : List String) : Bool :=
  match within? base level levels [] names.dropLast with
  | some inner => excludes inner (base ++ names) false
  | none => true

/-- Where no ignore file can be read, none excludes anything. -/
theorem isEmpty_ofDir {tree : Tree} {depth : Nat} {dir : Path}
    (hplain : tree.content? (dir.join plainFile) = none)
    (htracked : tree.content? (dir.join trackedFile) = none)
    (hown : tree.content? (dir.join repositoryName) = none)
    (huntracked : tree.content? ((dir.join repositoryName).join untrackedFile) = none) :
    (ofDir tree depth dir).isEmpty = true := by
  have hrepository : repositoryDir? tree dir = some (dir.join repositoryName) := by
    unfold repositoryDir?
    rw [hown]
  simp [ofDir, isEmpty, hplain, htracked, hrepository, huntracked]

end IgnoreLevel

namespace Node

variable {pruning : Pruning} {levels : List IgnoreLevel} {here : List String}

theorem filesAmong_eq_flatMap (entries : List (String × Node)) :
    filesAmong pruning levels here entries =
      entries.flatMap fun entry => filesBelow pruning levels (here ++ [entry.1]) entry.2 := by
  induction entries with
  | nil => rw [filesAmong, List.flatMap_nil]
  | cons entry entries ih => rw [filesAmong, ih, List.flatMap_cons]

theorem mem_of_lookup {name : String} {node : Node} {entries : List (String × Node)}
    (h : entries.lookup name = some node) : (name, node) ∈ entries := by
  obtain ⟨front, back, rfl, -⟩ := List.lookup_eq_some_iff.mp h
  simp

/-- A walk gets to every file that it does not leave out. -/
theorem mem_filesAmong {names : List String} {content : Content}
    {entries : List (String × Node)} {inner : List IgnoreLevel}
    (hfile : (dir entries).at? names = some (file content))
    (hwithin : IgnoreLevel.within? pruning.base pruning.level levels here names.dropLast =
      some inner)
    (hkept : IgnoreLevel.excludes inner (pruning.base ++ (here ++ names)) false = false)
    (hskip : ∀ name ∈ names.dropLast, pruning.skipDirs.contains name = false) :
    here ++ names ∈ filesAmong pruning levels here entries := by
  induction names generalizing levels here entries with
  | nil => simp at hfile
  | cons name names ih =>
    rw [at?_cons, child?] at hfile
    obtain ⟨node, hlookup, hbelow⟩ := Option.bind_eq_some_iff.mp hfile
    rw [filesAmong_eq_flatMap, List.mem_flatMap]
    refine ⟨(name, node), mem_of_lookup hlookup, ?_⟩
    cases names with
    | nil =>
      rw [at?_nil, Option.some.injEq] at hbelow
      rw [List.dropLast_singleton, IgnoreLevel.within?, Option.some.injEq] at hwithin
      subst hbelow hwithin
      rw [filesBelow, hkept, if_neg Bool.false_ne_true]
      exact List.mem_singleton_self _
    | cons next names =>
      cases node with
      | file other => simp [at?_cons, child?] at hbelow
      | link target => simp [at?_cons, child?] at hbelow
      | dir others =>
        rw [List.dropLast_cons_cons, IgnoreLevel.within?] at hwithin
        rw [List.dropLast_cons_cons, List.forall_mem_cons] at hskip
        split at hwithin
        · exact absurd hwithin (by simp)
        next hexcluded =>
          have hentered : ¬ (IgnoreLevel.excludes levels (pruning.base ++ (here ++ [name])) true ||
              (here ++ [name]).getLast?.any fun name => pruning.skipDirs.contains name) = true := by
            rw [List.getLast?_concat, Option.any_some, hskip.1, Bool.or_false]
            exact hexcluded
          have hhere : here ++ name :: next :: names = here ++ [name] ++ next :: names := by simp
          rw [hhere] at hkept ⊢
          rw [filesBelow, if_neg hentered]
          exact ih hbelow hwithin hkept hskip.2

end Node

namespace Tree

/-- What a walk of a project leaves out. -/
def pruning (tree : Tree) (skipDirs : List String) (root : Path) (base : List String) :
    Node.Pruning where
  skipDirs := skipDirs
  base := base
  level here := IgnoreLevel.ofDir tree (base.length + here.length) (root.join (pathOf here))

/-- The ignore files that hold in a project's own directory. -/
def rootLevels (tree : Tree) (root : Path) (base : List String) : List IgnoreLevel :=
  ((tree.pruning [] root base).level []).under (tree.outerLevels base)

/-- Whether ignore files exclude a project's file from it, given by its names. -/
def ignores (tree : Tree) (root : Path) (base names : List String) : Bool :=
  IgnoreLevel.ignores base (tree.pruning [] root base).level (tree.rootLevels root base) names

variable {tree : Tree} {root : Path} {base : List String}

theorem files_eq (skipDirs : List String) (hbase : tree.dirNames? root = some base) :
    tree.files skipDirs false root =
      (Node.filesAmong (tree.pruning skipDirs root base) (tree.rootLevels root base) []
        (tree.entriesAt false base)).map pathOf := by
  rw [files, hbase]
  rfl

theorem dirNames?_eq_some : tree.dirNames? root = some base ↔
    ∃ entries, tree.place true root = .ok (.found base (.dir entries)) := by
  rw [dirNames?]
  split
  next names entries hplace =>
    rw [Option.some.injEq]
    constructor
    · rintro rfl
      exact ⟨entries, hplace⟩
    · rintro ⟨others, hothers⟩
      rw [hplace] at hothers
      simp_all
  next hplace =>
    refine ⟨fun h => absurd h (by simp), ?_⟩
    rintro ⟨entries, hentries⟩
    exact absurd hentries (hplace base entries)

theorem entriesAt_of_at? (tree : Tree) {entries : List (String × Node)}
    (h : tree.top.at? base = some (.dir entries)) : tree.entriesAt false base = entries := by
  rw [entriesAt, if_neg Bool.false_ne_true, h]

/-- A project's directory and its entries. -/
theorem at?_base (hd : tree.HasDirectory) (hbase : tree.dirNames? root = some base) :
    tree.top.at? base = some (.dir (tree.entriesAt false base)) := by
  obtain ⟨entries, hplace⟩ := dirNames?_eq_some.mp hbase
  have hdir : tree.top.at? base = some (.dir entries) := isIn_of_place hd hplace
  rw [entriesAt_of_at? tree hdir, hdir]

/-- A project's files are all that lie below its directory, but for those that ignore files exclude
and those below a skipped directory. -/
theorem mem_files {skipDirs names : List String} {content : Content} (hd : tree.HasDirectory)
    (hbase : tree.dirNames? root = some base)
    (hfile : tree.top.at? (base ++ names) = some (.file content))
    (hkept : tree.ignores root base names = false)
    (hskip : ∀ name ∈ names.dropLast, skipDirs.contains name = false) :
    pathOf names ∈ tree.files skipDirs false root := by
  rw [Node.at?_append, at?_base hd hbase] at hfile
  rw [files_eq skipDirs hbase]
  refine List.mem_map_of_mem ?_
  rw [ignores, IgnoreLevel.ignores] at hkept
  split at hkept
  next inner hwithin =>
    have hmem : [] ++ names ∈ Node.filesAmong (tree.pruning skipDirs root base)
        (tree.rootLevels root base) [] (tree.entriesAt false base) :=
      Node.mem_filesAmong hfile hwithin hkept hskip
    exact hmem
  next => exact absurd hkept (by simp)

end Tree

end Scrutiny
