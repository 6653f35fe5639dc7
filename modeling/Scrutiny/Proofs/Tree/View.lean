import Mathlib.Tactic.Common
import Scrutiny.Tree.Node

/-!
What a node shows under each list of names.  Putting a file, or an empty directory, where a name
is free or a file lies changes what is shown there and nothing else.
-/

namespace Scrutiny.Node

/-! ## 1. Names and entries -/

@[simp]
theorem at?_nil (node : Node) : node.at? [] = some node := by
  cases node <;> rfl

theorem at?_cons (name : String) (names : List String) (node : Node) :
    node.at? (name :: names) = (node.child? name).bind (at? names) := rfl

theorem at?_append (front back : List String) (node : Node) :
    node.at? (front ++ back) = (node.at? front).bind (at? back) := by
  induction front generalizing node with
  | nil => simp
  | cons name front ih =>
    rw [List.cons_append, at?_cons, at?_cons]
    cases node.child? name with
    | none => rfl
    | some child => exact ih child

theorem at?_concat (names : List String) (name : String) (node : Node) :
    node.at? (names ++ [name]) = (node.at? names).bind (child? name) := by
  rw [at?_append]
  cases node.at? names with
  | none => rfl
  | some found =>
    rw [Option.bind_some, Option.bind_some, at?_cons]
    cases found.child? name <;> simp

theorem lookup_cons_eq_ite (name other : String) (node : Node) (entries : List (String × Node)) :
    ((name, node) :: entries).lookup other =
      if other = name then some node else entries.lookup other := by
  rw [List.lookup_cons]
  by_cases h : other = name
  · rw [if_pos h, beq_iff_eq.mpr h]
  · rw [if_neg h, beq_eq_false_iff_ne.mpr h]

theorem lookup_putEntry (name other : String) (node : Node) (entries : List (String × Node)) :
    (putEntry name node entries).lookup other =
      if other = name then some node else entries.lookup other := by
  induction entries with
  | nil => exact lookup_cons_eq_ite name other node []
  | cons entry entries ih =>
    obtain ⟨key, value⟩ := entry
    rw [putEntry, lookup_cons_eq_ite]
    by_cases hkey : key = name
    · rw [if_pos (by simpa using hkey), lookup_cons_eq_ite, hkey]
      by_cases h : other = name <;> simp [h]
    · rw [if_neg (by simpa using hkey), lookup_cons_eq_ite, ih]
      by_cases h : other = key
      · subst h
        simp [hkey]
      · simp [h]

/-! ## 2. Views -/

/-- A node without what lies below it. -/
def shape : Node → Node
  | dir _ => dir []
  | file content => file content
  | link target => link target

/-- What a list of names shows from a node. -/
def view (node : Node) (names : List String) : Option Node :=
  (node.at? names).map shape

-- A shape says of which kind a node is, and what it holds unless it is a directory.

theorem shape_eq_dir {node : Node} : node.shape = dir [] ↔ ∃ entries, node = dir entries := by
  cases node <;> simp [shape]

theorem shape_eq_file {node : Node} {content : Content} :
    node.shape = file content ↔ node = file content := by
  cases node <;> simp [shape]

theorem shape_eq_link {node : Node} {target : String} :
    node.shape = link target ↔ node = link target := by
  cases node <;> simp [shape]

theorem view_eq_dir {node : Node} {names : List String} :
    node.view names = some (dir []) ↔ ∃ entries, node.at? names = some (dir entries) := by
  rw [view, Option.map_eq_some_iff]
  constructor
  · rintro ⟨found, hfound, hshape⟩
    obtain ⟨entries, rfl⟩ := shape_eq_dir.mp hshape
    exact ⟨entries, hfound⟩
  · rintro ⟨entries, hentries⟩
    exact ⟨dir entries, hentries, rfl⟩

theorem view_eq_file {node : Node} {names : List String} {content : Content} :
    node.view names = some (file content) ↔ node.at? names = some (file content) := by
  simp [view, Option.map_eq_some_iff, shape_eq_file]

theorem view_eq_link {node : Node} {names : List String} {target : String} :
    node.view names = some (link target) ↔ node.at? names = some (link target) := by
  simp [view, Option.map_eq_some_iff, shape_eq_link]

/-! ## 3. Putting a node -/

/-- Names under which a node can be put without hiding any other: they lead to a file, or to a
free name in a directory. -/
def hasSlot : List String → Node → Prop
  | [], file _ => True
  | name :: names, dir entries =>
      match entries.lookup name with
      | some child => hasSlot names child
      | none => names = []
  | _, _ => False

theorem hasSlot_of_file {names : List String} {node : Node} {content : Content}
    (h : node.at? names = some (file content)) : node.hasSlot names := by
  induction names generalizing node with
  | nil =>
    rw [at?_nil, Option.some.injEq] at h
    subst h
    trivial
  | cons name names ih =>
    rw [at?_cons] at h
    cases node with
    | dir entries =>
      rw [hasSlot]
      cases hchild : entries.lookup name with
      | none => simp [child?, hchild] at h
      | some child => exact ih (by simpa [child?, hchild] using h)
    | file other => simp [child?] at h
    | link target => simp [child?] at h

theorem hasSlot_of_free {names : List String} {name : String} {node : Node}
    {entries : List (String × Node)} (hdir : node.at? names = some (dir entries))
    (hfree : entries.lookup name = none) : node.hasSlot (names ++ [name]) := by
  induction names generalizing node with
  | nil =>
    rw [at?_nil, Option.some.injEq] at hdir
    subst hdir
    simp [hasSlot, hfree]
  | cons first names ih =>
    rw [at?_cons] at hdir
    cases node with
    | dir others =>
      rw [List.cons_append, hasSlot]
      cases hchild : others.lookup first with
      | none => simp [child?, hchild] at hdir
      | some child => exact ih (by simpa [child?, hchild] using hdir)
    | file other => simp [child?] at hdir
    | link target => simp [child?] at hdir

/-- Nothing lies below the node. -/
def isFlat (node : Node) : Prop :=
  ∀ name, node.child? name = none

theorem isFlat_file (content : Content) : (file content).isFlat := fun _ => rfl

theorem isFlat_emptyDir : (dir []).isFlat := fun _ => rfl

theorem view_cons_of_isFlat {node : Node} (h : node.isFlat) (name : String)
    (names : List String) : node.view (name :: names) = none := by
  rw [view, at?_cons, h name]
  rfl

theorem view_cons (name : String) (names : List String) (node : Node) :
    node.view (name :: names) = (node.child? name).bind fun child => child.view names := by
  rw [view, at?_cons]
  cases node.child? name <;> rfl

-- A slot shows a file, or nothing.
theorem view_of_hasSlot {names : List String} {node : Node} (h : node.hasSlot names) :
    node.view names = none ∨ ∃ content, node.view names = some (file content) := by
  induction names generalizing node with
  | nil =>
    cases node with
    | file content => exact Or.inr ⟨content, view_eq_file.mpr (at?_nil _)⟩
    | dir entries => exact absurd h id
    | link target => exact absurd h id
  | cons name names ih =>
    cases node with
    | file content => exact absurd h id
    | link target => exact absurd h id
    | dir entries =>
      rw [hasSlot] at h
      rw [view_cons, child?]
      cases hchild : entries.lookup name with
      | none => exact Or.inl rfl
      | some child =>
        rw [hchild] at h
        exact ih h

/-- Putting a node with nothing below it into a slot changes what its names show. -/
theorem view_put {new : Node} (hnew : new.isFlat) {names : List String} {node : Node}
    (hslot : node.hasSlot names) (others : List String) :
    (node.put names new).view others =
      if others = names then some new.shape else node.view others := by
  induction names generalizing node others with
  | nil =>
    cases node with
    | file content =>
      cases others with
      | nil => simp [put, view]
      | cons other others =>
        rw [put, view_cons_of_isFlat hnew, view_cons_of_isFlat (isFlat_file content)]
        rfl
    | dir entries => exact absurd hslot id
    | link target => exact absurd hslot id
  | cons name names ih =>
    cases node with
    | file content => exact absurd hslot id
    | link target => exact absurd hslot id
    | dir entries =>
      rw [hasSlot] at hslot
      rw [put]
      cases hchild : entries.lookup name with
      | some child =>
        -- the slot lies below an entry, so the other entries stay
        rw [hchild] at hslot
        cases others with
        | nil => simp [view, shape]
        | cons other others =>
          dsimp only
          rw [view_cons, view_cons, child?, child?, lookup_putEntry]
          by_cases hother : other = name
          · subst hother
            rw [if_pos rfl, hchild, Option.bind_some, Option.bind_some, ih hslot others]
            simp
          · simp [hother]
      | none =>
        -- the name is free, so it is the last one and the new node becomes its entry
        rw [hchild] at hslot
        have hnames : names = [] := hslot
        subst hnames
        cases others with
        | nil => simp [view, shape]
        | cons other others =>
          dsimp only
          rw [if_pos List.isEmpty_nil, view_cons, view_cons, child?, child?, lookup_putEntry]
          by_cases hother : other = name
          · subst hother
            rw [if_pos rfl, hchild]
            cases others with
            | nil => simp [view]
            | cons next others =>
              rw [Option.bind_some, view_cons_of_isFlat hnew]
              simp
          · simp [hother]

end Scrutiny.Node
