import Mathlib.Tactic.Common
import Scrutiny.Proofs.Tree.View
import Scrutiny.Tree.Basic

/-!
Where paths lead.  A path passes directories and links and ends at a file, so what it leads to
stays the same in every tree that shows the same directories and links.
-/

namespace Scrutiny.Tree

/-! ## 1. Trails -/

/-- The trail goes through the tree's own nodes. -/
def Leads (tree : Tree) : Trail → Prop
  | [] => True
  | (name, node) :: trail => (tree.nodeOn trail).child? name = some node ∧ tree.Leads trail

theorem Trail.names_cons (name : String) (node : Node) (trail : Trail) :
    Trail.names ((name, node) :: trail) = trail.names ++ [name] := by
  simp [Trail.names]

theorem at?_names {tree : Tree} {trail : Trail} (h : tree.Leads trail) :
    tree.top.at? trail.names = some (tree.nodeOn trail) := by
  induction trail with
  | nil => exact Node.at?_nil tree.top
  | cons entry trail ih =>
    obtain ⟨name, node⟩ := entry
    rw [Trail.names_cons, Node.at?_concat, ih h.2]
    exact h.1

theorem Leads.tail {tree : Tree} {trail : Trail} (h : tree.Leads trail) :
    tree.Leads trail.tail := by
  cases trail with
  | nil => trivial
  | cons entry trail => exact h.2

/-- The trail with one more name, if it leads on. -/
def advance (tree : Tree) (trail : Trail) (name : String) : Trail :=
  match (tree.nodeOn trail).child? name with
  | some node => (name, node) :: trail
  | none => trail

theorem trailOf_eq_foldl (tree : Tree) (names : List String) :
    tree.trailOf names = names.foldl tree.advance [] := rfl

-- Names that lead somewhere from the end of a trail prolong it.
theorem foldl_advance {tree : Tree} {names : List String} {node : Node} {trail : Trail}
    (htrail : tree.Leads trail) (hnames : (tree.nodeOn trail).at? names = some node) :
    tree.Leads (names.foldl tree.advance trail) ∧
      Trail.names (names.foldl tree.advance trail) = trail.names ++ names := by
  induction names generalizing trail with
  | nil => exact ⟨htrail, (List.append_nil _).symm⟩
  | cons name names ih =>
    rw [Node.at?_cons] at hnames
    cases hchild : (tree.nodeOn trail).child? name with
    | none => simp [hchild] at hnames
    | some child =>
      rw [hchild] at hnames
      have hlonger : tree.Leads ((name, child) :: trail) := ⟨hchild, htrail⟩
      have hadvance : tree.advance trail name = (name, child) :: trail := by
        rw [advance, hchild]
      obtain ⟨hleads, hfound⟩ := ih hlonger hnames
      rw [List.foldl_cons, hadvance]
      refine ⟨hleads, ?_⟩
      rw [hfound, Trail.names_cons, List.append_assoc]
      rfl

/-- The working directory is a directory of the tree. -/
def HasDirectory (tree : Tree) : Prop :=
  tree.top.view tree.directory = some (.dir [])

theorem HasDirectory.trailOf {tree : Tree} (h : tree.HasDirectory) :
    tree.Leads (tree.trailOf tree.directory) ∧
      (tree.trailOf tree.directory).names = tree.directory := by
  obtain ⟨entries, hentries⟩ := Node.view_eq_dir.mp h
  have htop : tree.Leads [] := trivial
  rw [trailOf_eq_foldl]
  exact foldl_advance htop hentries

/-! ## 2. One step -/

section Steps

variable {tree : Tree} {last : Bool} {links : Nat} {trail : Trail} {rest : List Step}
  {entries : List (String × Node)}

theorem resolve_nil : tree.resolve last links trail [] =
    .ok (.found trail.names (tree.nodeOn trail)) := by
  rw [resolve]

theorem resolve_stay (h : tree.nodeOn trail = .dir entries) :
    tree.resolve last links trail (.stay :: rest) = tree.resolve last links trail rest := by
  rw [resolve, h]

theorem resolve_up (h : tree.nodeOn trail = .dir entries) :
    tree.resolve last links trail (.up :: rest) = tree.resolve last links trail.tail rest := by
  rw [resolve, h]

theorem resolve_enter_free {name : String} (h : tree.nodeOn trail = .dir entries)
    (hname : ¬ longestName < name.utf8ByteSize) (hentry : entries.lookup name = none) :
    tree.resolve last links trail (.enter name :: rest) =
      if rest.isEmpty then .ok (.free trail.names name) else .error .notFound := by
  rw [resolve, h]
  simp only [if_neg hname, hentry]

theorem resolve_enter_link {name target : String} (h : tree.nodeOn trail = .dir entries)
    (hname : ¬ longestName < name.utf8ByteSize)
    (hentry : entries.lookup name = some (.link target))
    (hlast : ¬ (rest.isEmpty && !last) = true) :
    tree.resolve last (links + 1) trail (.enter name :: rest) =
      tree.resolve last links (if target.startsWith "/" then [] else trail)
        (stepsOf target ++ rest) := by
  rw [resolve, h]
  simp only [if_neg hname, hentry, if_neg hlast]

theorem resolve_enter_node {name : String} {node : Node} (h : tree.nodeOn trail = .dir entries)
    (hname : ¬ longestName < name.utf8ByteSize) (hentry : entries.lookup name = some node)
    (hnode : ∀ target, node ≠ .link target) :
    tree.resolve last links trail (.enter name :: rest) =
      tree.resolve last links ((name, node) :: trail) rest := by
  rw [resolve, h]
  cases node with
  | link target => exact absurd rfl (hnode target)
  | file content => simp only [if_neg hname, hentry]
  | dir others => simp only [if_neg hname, hentry]

theorem resolve_of_not_dir {step : Step} (h : ∀ entries, tree.nodeOn trail ≠ .dir entries) :
    tree.resolve last links trail (step :: rest) = .error .notDirectory := by
  rw [resolve]
  cases hnode : tree.nodeOn trail with
  | dir entries => exact absurd hnode (h entries)
  | file content => rfl
  | link target => rfl

end Steps

/-! ## 3. What a path leads to -/

/-- The names of what a path leads to, be it there or not. -/
def Place.names : Place → List String
  | .found names _ => names
  | .free names name => names ++ [name]

/-- The place is one of the tree: a node where it lies, or a free name in a directory. -/
def Place.IsIn (tree : Tree) : Place → Prop
  | .found names node => tree.top.at? names = some node
  | .free names name =>
      ∃ entries, tree.top.at? names = some (.dir entries) ∧ entries.lookup name = none

theorem isIn_of_resolve {tree : Tree} {last : Bool} {links : Nat} {trail : Trail}
    {steps : List Step} {place : Place} (htrail : tree.Leads trail)
    (h : tree.resolve last links trail steps = .ok place) : place.IsIn tree := by
  fun_induction tree.resolve last links trail steps with
  | case1 =>
    rw [Except.ok.injEq] at h
    exact h ▸ at?_names htrail
  | case2 _ _ _ _ _ ih => exact ih htrail h
  | case3 _ _ _ _ _ ih => exact ih htrail.tail h
  -- a free name
  | case5 _ trail _ entries hdir name _ hentry =>
    rw [Except.ok.injEq] at h
    exact h ▸ ⟨entries, hdir ▸ at?_names htrail, hentry⟩
  -- a link at the end, which is not followed
  | case7 _ trail _ entries hdir name _ target hentry =>
    rw [Except.ok.injEq] at h
    rw [← h, Place.IsIn, Node.at?_concat, at?_names htrail, hdir]
    exact hentry
  -- a link that is followed
  | case9 trail _ _ _ _ _ target _ _ _ start ih =>
    refine ih ?_ h
    dsimp only [start]
    split
    · trivial
    · exact htrail
  | case10 _ _ _ _ hdir _ _ node _ hentry ih =>
    exact ih ⟨by rw [hdir]; exact hentry, htrail⟩ h
  | case4 | case6 | case8 | case11 => exact absurd h (by simp)

/-! ## 4. Ways kept in another tree -/

/-- The other tree shows every directory and every link of the tree. -/
structure KeepsWays (tree other : Tree) : Prop where
  directory : other.directory = tree.directory
  dirs : ∀ names, tree.top.view names = some (.dir []) → other.top.view names = some (.dir [])
  links : ∀ names target, tree.top.view names = some (.link target) →
    other.top.view names = some (.link target)

theorem KeepsWays.refl (tree : Tree) : tree.KeepsWays tree :=
  ⟨rfl, fun _ h => h, fun _ _ h => h⟩

theorem KeepsWays.trans {first second third : Tree} (h : first.KeepsWays second)
    (h' : second.KeepsWays third) : first.KeepsWays third :=
  ⟨h'.directory.trans h.directory, fun names hd => h'.dirs names (h.dirs names hd),
    fun names target hl => h'.links names target (h.links names target hl)⟩

theorem KeepsWays.hasDirectory {tree other : Tree} (h : tree.KeepsWays other)
    (hd : tree.HasDirectory) : other.HasDirectory := by
  rw [HasDirectory, h.directory]
  exact h.dirs _ hd

section Ways

variable {tree other : Tree} {trail trail' : Trail}

theorem names_congr (h : trail'.map Prod.fst = trail.map Prod.fst) :
    Trail.names trail' = trail.names := by
  rw [Trail.names, Trail.names, h]

-- A directory at the end of a trail is one in the other tree.
theorem KeepsWays.nodeOn (hkeeps : tree.KeepsWays other) (htrail : tree.Leads trail)
    (hother : other.Leads trail') (hnames : trail'.map Prod.fst = trail.map Prod.fst)
    {entries : List (String × Node)} (hdir : tree.nodeOn trail = .dir entries) :
    ∃ entries', other.nodeOn trail' = .dir entries' := by
  have hview := hkeeps.dirs trail.names (Node.view_eq_dir.mpr ⟨entries, hdir ▸ at?_names htrail⟩)
  obtain ⟨entries', hentries⟩ := Node.view_eq_dir.mp hview
  rw [← names_congr hnames, at?_names hother, Option.some.injEq] at hentries
  exact ⟨entries', hentries⟩

theorem lookup_eq_at? (hleads : tree.Leads trail) {entries : List (String × Node)}
    (hdir : tree.nodeOn trail = .dir entries) (name : String) :
    entries.lookup name = tree.top.at? (trail.names ++ [name]) := by
  rw [Node.at?_concat, at?_names hleads, hdir]
  rfl

/-- A path that leads somewhere, be it to a free name, leads to the same names in every tree that
keeps its ways and has a file or a directory there. -/
theorem KeepsWays.resolve (hkeeps : tree.KeepsWays other) {links : Nat} {steps : List Step}
    {place : Place} {found : Node} (htrail : tree.Leads trail) (hother : other.Leads trail')
    (hnames : trail'.map Prod.fst = trail.map Prod.fst)
    (h : tree.resolve true links trail steps = .ok place)
    (hfound : ∀ target, found ≠ .link target)
    (hat : other.top.at? place.names = some found) :
    other.resolve true links trail' steps = .ok (.found place.names found) := by
  fun_induction tree.resolve true links trail steps generalizing trail' with
  | case1 =>
    rw [Except.ok.injEq] at h
    subst h
    rw [Place.names, ← names_congr hnames, at?_names hother, Option.some.injEq] at hat
    rw [resolve_nil, Place.names, names_congr hnames, hat]
  | case2 _ _ _ _ hdir ih =>
    obtain ⟨_, hdir'⟩ := hkeeps.nodeOn htrail hother hnames hdir
    rw [resolve_stay hdir']
    exact ih htrail hother hnames h
  | case3 _ _ _ _ hdir ih =>
    obtain ⟨_, hdir'⟩ := hkeeps.nodeOn htrail hother hnames hdir
    rw [resolve_up hdir']
    exact ih htrail.tail hother.tail (by rw [List.map_tail, List.map_tail, hnames]) h
  -- a free name, where the other tree has a node
  | case5 _ trail _ entries hdir name hname hentry hrest =>
    obtain ⟨entries', hdir'⟩ := hkeeps.nodeOn htrail hother hnames hdir
    rw [Except.ok.injEq] at h
    subst h
    rw [Place.names, ← names_congr hnames, ← lookup_eq_at? hother hdir'] at hat
    rw [List.isEmpty_iff.mp hrest, resolve_enter_node hdir' hname hat hfound, resolve_nil,
      Trail.names_cons, names_congr hnames]
    rfl
  -- a link, which is the same in both trees
  | case9 trail _ _ hdir name hname target hentry hlast _ start =>
    rename_i ih
    obtain ⟨_, hdir'⟩ := hkeeps.nodeOn htrail hother hnames hdir
    have hlink : other.top.at? (trail.names ++ [name]) = some (.link target) := by
      rw [lookup_eq_at? htrail hdir] at hentry
      exact Node.view_eq_link.mp (hkeeps.links _ _ (Node.view_eq_link.mpr hentry))
    rw [← names_congr hnames, ← lookup_eq_at? hother hdir'] at hlink
    rw [resolve_enter_link hdir' hname hlink hlast]
    by_cases hroot : target.startsWith "/" = true
    · have hstart : start = [] := dif_pos hroot
      rw [hstart] at ih h
      rw [if_pos hroot]
      exact ih trivial trivial rfl h
    · have hstart : start = trail := dif_neg hroot
      rw [hstart] at ih h
      rw [if_neg hroot]
      exact ih htrail hother hnames h
  | case10 _ trail rest _ hdir name hname node hnode hentry ih =>
    obtain ⟨_, hdir'⟩ := hkeeps.nodeOn htrail hother hnames hdir
    have hleads : tree.Leads ((name, node) :: trail) := ⟨by rw [hdir]; exact hentry, htrail⟩
    -- the entry is a directory in both trees, or the file that the path ends at
    obtain ⟨node', hentry', hnode'⟩ : ∃ node', other.top.at? (trail.names ++ [name]) = some node' ∧
        ∀ target, node' ≠ .link target := by
      rw [lookup_eq_at? htrail hdir] at hentry
      cases node with
      | link target => exact absurd rfl (hnode target)
      | dir entries =>
        have hview := hkeeps.dirs _ (Node.view_eq_dir.mpr ⟨entries, hentry⟩)
        obtain ⟨entries', hentries⟩ := Node.view_eq_dir.mp hview
        exact ⟨.dir entries', hentries, by simp⟩
      | file old =>
        cases rest with
        | nil =>
          rw [resolve_nil, Except.ok.injEq] at h
          rw [← h, Place.names, Trail.names_cons] at hat
          exact ⟨found, hat, hfound⟩
        | cons step rest =>
          rw [resolve_of_not_dir (by simp [Tree.nodeOn])] at h
          exact absurd h (by simp)
    rw [← names_congr hnames, ← lookup_eq_at? hother hdir'] at hentry'
    rw [resolve_enter_node hdir' hname hentry' hnode']
    refine ih hleads ⟨?_, hother⟩ ?_ h
    · rw [hdir']
      exact hentry'
    · rw [List.map_cons, List.map_cons, hnames]
  | case7 _ _ _ _ _ _ _ _ _ hlast => simp at hlast
  | case4 | case6 | case8 | case11 => exact absurd h (by simp)

end Ways

/-! ## 5. Paths -/

/-- Where resolving a path starts. -/
def start (tree : Tree) (path : Path) : Trail :=
  if path.isAbsolute then [] else tree.trailOf tree.directory

theorem leads_start {tree : Tree} (h : tree.HasDirectory) (path : Path) :
    tree.Leads (tree.start path) := by
  unfold start
  split
  · trivial
  · exact h.trailOf.1

theorem place_eq_ok {tree : Tree} {last : Bool} {path : Path} {place : Place} :
    tree.place last path = .ok place ↔
      flaw? path = none ∧
        tree.resolve last mostLinks (tree.start path) (stepsOf path.text) = .ok place := by
  rw [Tree.place, Tree.placeOf]
  cases hflaw : flaw? path with
  | some error => simp
  | none => simp [start]

theorem isIn_of_place {tree : Tree} {last : Bool} {path : Path} {place : Place}
    (hd : tree.HasDirectory) (h : tree.place last path = .ok place) : place.IsIn tree :=
  isIn_of_resolve (leads_start hd path) (place_eq_ok.mp h).2

theorem KeepsWays.start_names {tree other : Tree} (hkeeps : tree.KeepsWays other)
    (hd : tree.HasDirectory) (path : Path) :
    (other.start path).map Prod.fst = (tree.start path).map Prod.fst := by
  unfold start
  split
  · rfl
  · have hother := (hkeeps.hasDirectory hd).trailOf.2
    rw [hkeeps.directory] at hother
    have hnames : (other.trailOf tree.directory).names = (tree.trailOf tree.directory).names :=
      hother.trans hd.trailOf.2.symm
    rw [hkeeps.directory]
    exact List.reverse_inj.mp hnames

/-- A path leads to the same names in every tree that keeps its ways and has a file or a directory
there. -/
theorem KeepsWays.place {tree other : Tree} (hkeeps : tree.KeepsWays other)
    (hd : tree.HasDirectory) {path : Path} {place : Place} {found : Node}
    (h : tree.place true path = .ok place) (hfound : ∀ target, found ≠ .link target)
    (hat : other.top.at? place.names = some found) :
    other.place true path = .ok (.found place.names found) := by
  obtain ⟨hflaw, hresolve⟩ := place_eq_ok.mp h
  exact place_eq_ok.mpr ⟨hflaw, hkeeps.resolve (leads_start hd path)
    (leads_start (hkeeps.hasDirectory hd) path) (hkeeps.start_names hd path) hresolve hfound hat⟩

theorem top_ne_link {tree : Tree} (h : tree.HasDirectory) (target : String) :
    tree.top ≠ .link target := by
  intro htop
  rw [HasDirectory, htop] at h
  cases hnames : tree.directory with
  | nil => simp [hnames, Node.view, Node.shape] at h
  | cons name names => simp [hnames, Node.view_cons, Node.child?] at h

theorem nodeOn_start_ne_link {tree : Tree} (h : tree.HasDirectory) (path : Path)
    (target : String) : tree.nodeOn (tree.start path) ≠ .link target := by
  unfold start
  split
  · exact top_ne_link h target
  · obtain ⟨entries, hentries⟩ := Node.view_eq_dir.mp h
    have hend := at?_names h.trailOf.1
    rw [h.trailOf.2, hentries, Option.some.injEq] at hend
    rw [← hend]
    simp

-- No path leads to a link, since links are followed.
theorem not_link_of_resolve {tree : Tree} (htop : ∀ target, tree.top ≠ .link target)
    {links : Nat} {trail : Trail} {steps : List Step} {names : List String} {node : Node}
    (htrail : tree.Leads trail) (hend : ∀ target, tree.nodeOn trail ≠ .link target)
    (h : tree.resolve true links trail steps = .ok (.found names node)) (target : String) :
    node ≠ .link target := by
  fun_induction tree.resolve true links trail steps with
  | case1 =>
    rw [Except.ok.injEq, Place.found.injEq] at h
    exact h.2 ▸ hend target
  | case2 _ _ _ _ _ ih => exact ih htrail hend h
  | case3 _ trail _ _ _ ih =>
    refine ih htrail.tail ?_ h
    cases trail with
    | nil => exact hend
    | cons entry trail =>
      intro other hlink
      have hchild := htrail.1
      rw [show tree.nodeOn trail = .link other from hlink] at hchild
      exact absurd hchild (by simp [Node.child?])
  | case9 trail _ _ _ _ _ target _ _ _ start ih =>
    have hstart : start = [] ∨ start = trail := by
      dsimp only [start]
      split
      · exact Or.inl rfl
      · exact Or.inr rfl
    rcases hstart with hroot | hsame
    · exact ih (hroot ▸ trivial) (hroot ▸ htop) h
    · exact ih (hsame ▸ htrail) (hsame ▸ hend) h
  | case10 _ _ _ _ hdir _ _ node hnode hentry ih =>
    exact ih ⟨by rw [hdir]; exact hentry, htrail⟩ hnode h
  | case7 _ _ _ _ _ _ _ _ _ hlast => simp at hlast
  | case4 | case5 | case6 | case8 | case11 => exact absurd h (by simp)

/-- A place that a file can be written at: nothing else lies there. -/
theorem hasSlot_of_place {tree : Tree} (hd : tree.HasDirectory) {path : Path} {place : Place}
    (h : tree.place true path = .ok place)
    (hdir : ∀ names entries, place ≠ .found names (.dir entries)) :
    tree.top.hasSlot place.names := by
  have hin := isIn_of_place hd h
  cases place with
  | free names name =>
    obtain ⟨entries, hentries, hfree⟩ := hin
    exact Node.hasSlot_of_free hentries hfree
  | found names node =>
    cases node with
    | dir entries => exact absurd rfl (hdir names entries)
    | file content => exact Node.hasSlot_of_file hin
    | link target =>
      exact absurd rfl (not_link_of_resolve (top_ne_link hd) (leads_start hd path)
        (nodeOn_start_ne_link hd path) (place_eq_ok.mp h).2 target)

end Scrutiny.Tree
