import Scrutiny.Proofs.Tree.Visits

/-!
What saving one file does to a tree.  Directories that were missing are made, and then one file is
written.  All other files read as before, and a walk lists them in the order of before, as long as
it reads the same ignore files.
-/

namespace Scrutiny

/-! ## 1. Lists with more of some members -/

/-- The other list has the same members in the same order; only of extra members it may have
more. -/
structure SameBut {α : Type} (isExtra : α → Bool) (list other : List α) : Prop where
  filter : (other.filter fun a => !isExtra a) = list.filter fun a => !isExtra a
  subset : list ⊆ other

namespace SameBut

variable {α : Type} {isExtra : α → Bool} {list other third front back : List α}

theorem refl (list : List α) : SameBut isExtra list list :=
  ⟨rfl, List.Subset.refl list⟩

theorem trans (h : SameBut isExtra list other) (h' : SameBut isExtra other third) :
    SameBut isExtra list third :=
  ⟨h'.filter.trans h.filter, List.Subset.trans h.subset h'.subset⟩

theorem append (h : SameBut isExtra list other) (h' : SameBut isExtra front back) :
    SameBut isExtra (list ++ front) (other ++ back) := by
  refine ⟨by rw [List.filter_append, List.filter_append, h.filter, h'.filter], ?_⟩
  rw [List.append_subset]
  exact ⟨List.subset_append_of_subset_left _ h.subset,
    List.subset_append_of_subset_right _ h'.subset⟩

/-- Where nothing extra is kept, what is kept is the same. -/
theorem filter_eq (h : SameBut isExtra list other) {kept : α → Bool}
    (hkept : ∀ a ∈ other, isExtra a = true → kept a = false) :
    other.filter kept = list.filter kept := by
  have hsplit : ∀ part : List α, part ⊆ other →
      (part.filter fun a => !isExtra a).filter kept = part.filter kept := by
    intro part hpart
    rw [List.filter_filter]
    refine List.filter_congr fun a ha => ?_
    cases hextra : isExtra a with
    | false => simp
    | true => simp [hkept a (hpart ha) hextra]
  rw [← hsplit other (List.Subset.refl other), h.filter, hsplit list h.subset]

end SameBut

/-! ## 2. Walks where a node is put -/

namespace Node

section Put

variable {pruning : Pruning} {isExtra : List String → Bool} {new : Node}

theorem sameBut_filesAmong_putEntry {levels : List IgnoreLevel} {here : List String} {name : String}
    {entries : List (String × Node)}
    (h : SameBut isExtra
      ((entries.lookup name).elim [] (filesBelow pruning levels (here ++ [name])))
      (filesBelow pruning levels (here ++ [name]) new)) :
    SameBut isExtra (filesAmong pruning levels here entries)
      (filesAmong pruning levels here (putEntry name new entries)) := by
  induction entries with
  | nil =>
    rw [putEntry, filesAmong, filesAmong]
    exact h.append (.refl _)
  | cons entry entries ih =>
    obtain ⟨key, node⟩ := entry
    rw [putEntry]
    rw [lookup_cons_eq_ite] at h
    by_cases hkey : key = name
    · subst hkey
      rw [if_pos rfl] at h
      rw [if_pos (beq_self_eq_true key), filesAmong, filesAmong]
      exact h.append (.refl _)
    · rw [if_neg (Ne.symm hkey)] at h
      rw [if_neg (by simpa using hkey), filesAmong, filesAmong]
      exact (SameBut.refl _).append (ih h)

/-- Putting a node into a slot changes what a walk lists there and nothing else. -/
theorem sameBut_filesAmong_put {levels : List IgnoreLevel} {here names : List String}
    {entries : List (String × Node)} (hslot : (dir entries).hasSlot names)
    (hfound : ∀ levels old, (dir entries).at? names = some old →
      SameBut isExtra (filesBelow pruning levels (here ++ names) old)
        (filesBelow pruning levels (here ++ names) new))
    (hfree : ∀ levels, SameBut isExtra [] (filesBelow pruning levels (here ++ names) new)) :
    ∃ others, (dir entries).put names new = dir others ∧
      SameBut isExtra (filesAmong pruning levels here entries)
        (filesAmong pruning levels here others) := by
  induction names generalizing levels here entries with
  | nil => exact absurd hslot id
  | cons name names ih =>
    rw [hasSlot] at hslot
    rw [put]
    cases hlookup : entries.lookup name with
    | none =>
      rw [hlookup] at hslot
      have hnames : names = [] := hslot
      subst hnames
      refine ⟨_, if_pos rfl, sameBut_filesAmong_putEntry ?_⟩
      rw [hlookup]
      exact hfree levels
    | some child =>
      rw [hlookup] at hslot
      refine ⟨_, rfl, sameBut_filesAmong_putEntry ?_⟩
      rw [hlookup, Option.elim_some]
      cases names with
      | nil =>
        refine hfound levels child ?_
        rw [at?_cons, child?, hlookup]
        exact at?_nil child
      | cons next names =>
        cases child with
        | file content => exact absurd hslot id
        | link target => exact absurd hslot id
        | dir inner =>
          -- a directory above the slot is entered as before, if it is entered
          have hhere : here ++ name :: next :: names = here ++ [name] ++ next :: names := by simp
          rw [hhere] at hfound hfree
          have hinner : ∀ levels old, (dir inner).at? (next :: names) = some old →
              SameBut isExtra (filesBelow pruning levels (here ++ [name] ++ next :: names) old)
                (filesBelow pruning levels (here ++ [name] ++ next :: names) new) := by
            intro levels old hold
            refine hfound levels old ?_
            rw [at?_cons, child?, hlookup]
            exact hold
          obtain ⟨others, hput, hsame⟩ := ih hslot hinner hfree
          rw [hput, filesBelow, filesBelow]
          split
          · exact .refl _
          · exact hsame

end Put

/-- A node that is put below a directory is put below it there, and elsewhere the directory stays
as it is. -/
theorem at?_put_dir {node new : Node} {base names : List String} {entries : List (String × Node)}
    (hslot : node.hasSlot names) (hdir : node.at? base = some (dir entries)) :
    (∃ below, names = base ++ below ∧ (dir entries).hasSlot below ∧
        (node.put names new).at? base = some ((dir entries).put below new)) ∨
      (node.put names new).at? base = some (dir entries) := by
  induction base generalizing node names with
  | nil =>
    rw [at?_nil, Option.some.injEq] at hdir
    subst hdir
    exact Or.inl ⟨names, rfl, hslot, at?_nil _⟩
  | cons first base ih =>
    rw [at?_cons] at hdir
    obtain ⟨child, hchild, hbelow⟩ := Option.bind_eq_some_iff.mp hdir
    cases node with
    | file content => simp [child?] at hchild
    | link target => simp [child?] at hchild
    | dir others =>
      rw [child?] at hchild
      cases names with
      | nil => exact absurd hslot id
      | cons name names =>
        rw [hasSlot] at hslot
        rw [put]
        by_cases hname : first = name
        · subst hname
          rw [hchild] at hslot ⊢
          dsimp only
          rw [at?_cons, child?, lookup_putEntry, if_pos rfl, Option.bind_some]
          rcases ih hslot hbelow with ⟨below, hnames, hinner, hput⟩ | hput
          · exact Or.inl ⟨below, by rw [hnames, List.cons_append], hinner, hput⟩
          · exact Or.inr hput
        · refine Or.inr ?_
          cases hlookup : others.lookup name with
          | some inner =>
            dsimp only
            rw [at?_cons, child?, lookup_putEntry, if_neg hname, hchild]
            exact hbelow
          | none =>
            rw [hlookup] at hslot
            have hnames : names = [] := hslot
            dsimp only
            rw [hnames, if_pos List.isEmpty_nil, at?_cons, child?, lookup_putEntry, if_neg hname,
              hchild]
            exact hbelow

end Node

namespace Tree

variable {tree other after : Tree} {target base names : List String} {path : Path}

/-- A walk of a directory lists the same files after a node was put into a slot, but for what is
listed there. -/
theorem sameBut_entriesAt_put {pruning : Node.Pruning} {levels : List IgnoreLevel} {new : Node}
    {isExtra : List String → Bool} (hslot : tree.top.hasSlot names)
    (hdir : tree.top.view base = some (.dir []))
    (hfound : ∀ levels below old, names = base ++ below → tree.top.at? names = some old →
      SameBut isExtra (Node.filesBelow pruning levels below old)
        (Node.filesBelow pruning levels below new))
    (hfree : ∀ levels below, names = base ++ below →
      SameBut isExtra [] (Node.filesBelow pruning levels below new)) :
    SameBut isExtra (Node.filesAmong pruning levels [] (tree.entriesAt false base))
      (Node.filesAmong pruning levels [] ((tree.put names new).entriesAt false base)) := by
  obtain ⟨entries, hentries⟩ := Node.view_eq_dir.mp hdir
  rw [entriesAt_of_at? tree hentries]
  rcases Node.at?_put_dir hslot hentries with ⟨below, hnames, hinner, hput⟩ | hput
  · have hfoundBelow : ∀ levels old, (Node.dir entries).at? below = some old →
        SameBut isExtra (Node.filesBelow pruning levels ([] ++ below) old)
          (Node.filesBelow pruning levels ([] ++ below) new) := by
      intro levels old hold
      refine hfound levels below old hnames ?_
      rw [hnames, Node.at?_append, hentries]
      exact hold
    obtain ⟨others, hothers, hsame⟩ := Node.sameBut_filesAmong_put hinner hfoundBelow
      fun levels => hfree levels below hnames
    rw [hothers] at hput
    rw [entriesAt_of_at? (tree.put names new) hput]
    exact hsame
  · rw [entriesAt_of_at? (tree.put names new) hput]
    exact .refl _

/-! ## 3. Filled trees -/

/-- The other tree is the tree with directories made and then a file written under the target, once
or again and again. -/
inductive Filled (target : List String) (tree : Tree) : Tree → Prop
  | made {other : Tree} : tree.Made other → Filled target tree other
  | file {other : Tree} (content : Content) : Filled target tree other →
      other.top.hasSlot target → Filled target tree (other.put target (.file content))

theorem Filled.keepsWays (h : tree.Filled target other) : tree.KeepsWays other := by
  induction h with
  | made hmade => exact hmade.grows.keepsWays
  | file content _ hslot ih => exact ih.trans (keepsWays_put hslot content)

-- Where directories are made there was no file.
theorem Made.view_eq_file (h : tree.Made other) {content : Content} :
    other.top.view names = some (.file content) ↔ tree.top.view names = some (.file content) := by
  induction h with
  | refl => exact Iff.rfl
  | put _ hentries hfree ih =>
    rw [view_put_dir hentries hfree, ← ih]
    split
    next hnames => simp [hnames, view_of_free hentries hfree]
    next => exact Iff.rfl

/-- A file under other names than the target is one before and after, with the same content. -/
theorem Filled.at?_eq_file (h : tree.Filled target other) (hne : names ≠ target)
    {content : Content} :
    other.top.at? names = some (.file content) ↔ tree.top.at? names = some (.file content) := by
  rw [← Node.view_eq_file, ← Node.view_eq_file]
  induction h with
  | made hmade => exact hmade.view_eq_file
  | file raw _ hslot ih =>
    rw [Tree.put, Node.view_put (Node.isFlat_file raw) hslot, if_neg hne, ih]

-- A file under the target stays one.
theorem Filled.at?_target (h : tree.Filled target other) {old : Content}
    (hold : tree.top.at? target = some (.file old)) :
    ∃ content, other.top.at? target = some (.file content) := by
  induction h with
  | made hmade =>
    exact ⟨old, Node.view_eq_file.mp (hmade.view_eq_file.mpr (Node.view_eq_file.mpr hold))⟩
  | file content _ hslot _ => exact ⟨content, at?_put hslot content⟩

theorem Filled.fileNames? (h : tree.Filled target other) (hd : tree.HasDirectory)
    (hnames : tree.fileNames? path = some names) : other.fileNames? path = some names := by
  refine h.keepsWays.fileNames? hd hnames fun old hold => ?_
  by_cases htarget : names = target
  · subst htarget
    exact h.at?_target hold
  · exact ⟨old, (h.at?_eq_file htarget).mpr hold⟩

theorem isFile_eq_isSome : tree.isFile path = (tree.fileNames? path).isSome := by
  rw [isFile, node?, Tree.fileNames?]
  cases tree.place true path with
  | error error => rfl
  | ok place =>
    cases place with
    | free names name => rfl
    | found names node => cases node <;> rfl

/-- A path reads the same afterwards, unless it leads to the target, or to a file that was out of
reach before. -/
theorem Filled.content? (h : tree.Filled target other) (hd : tree.HasDirectory)
    (hreach : other.isFile path = true → tree.isFile path = true)
    (htarget : other.fileNames? path ≠ some target) :
    other.content? path = tree.content? path := by
  apply Option.ext
  intro content
  rw [content?_eq_some_iff hd, content?_eq_some_iff (h.keepsWays.hasDirectory hd)]
  constructor
  · rintro ⟨names, hnames, hat⟩
    rw [isFile_eq_isSome, isFile_eq_isSome, hnames, Option.isSome_some] at hreach
    obtain ⟨others, hothers⟩ := Option.isSome_iff_exists.mp (hreach rfl)
    have hsame : others = names := by
      rw [h.fileNames? hd hothers, Option.some.injEq] at hnames
      exact hnames
    refine ⟨names, hsame ▸ hothers, (h.at?_eq_file ?_).mp hat⟩
    rintro rfl
    exact htarget hnames
  · rintro ⟨names, hnames, hat⟩
    have hafter := h.fileNames? hd hnames
    refine ⟨names, hafter, (h.at?_eq_file ?_).mpr hat⟩
    rintro rfl
    exact htarget hafter

/-- A walk of a directory lists the same files, but for the target. -/
theorem Filled.sameBut_filesAmong (h : tree.Filled target other)
    (hdir : tree.top.view base = some (.dir [])) (pruning : Node.Pruning)
    (levels : List IgnoreLevel) :
    SameBut (fun listed => base ++ listed == target)
      (Node.filesAmong pruning levels [] (tree.entriesAt false base))
      (Node.filesAmong pruning levels [] (other.entriesAt false base)) := by
  induction h with
  | made hmade =>
    induction hmade with
    | refl => exact .refl _
    | @put between names name entries hbefore hentries hfree ih =>
      refine ih.trans (sameBut_entriesAt_put (Node.hasSlot_of_free hentries hfree)
        (hbefore.grows.keepsWays.dirs base hdir) (fun levels below old _ hold => ?_)
        (fun levels below _ => ?_))
      · rw [Node.at?_concat, hentries, Option.bind_some, Node.child?, hfree] at hold
        exact absurd hold (by simp)
      · -- an empty directory has no files
        rw [Node.filesBelow, Node.filesAmong, ite_self]
        exact .refl []
  | @file between content hbefore hslot ih =>
    refine ih.trans (sameBut_entriesAt_put hslot (hbefore.keepsWays.dirs base hdir)
      (fun levels below old hnames hold => ?_) (fun levels below hnames => ?_))
    · -- what lies in a slot is a file, and what it holds does not matter to a walk
      obtain ⟨raw, rfl⟩ : ∃ raw, old = .file raw := by
        rcases Node.view_of_hasSlot hslot with hnone | ⟨raw, hraw⟩
        · rw [Node.view, hold] at hnone
          exact absurd hnone (by simp)
        · rw [Node.view_eq_file, hold, Option.some.injEq] at hraw
          exact ⟨raw, hraw⟩
      rw [Node.filesBelow, Node.filesBelow]
      exact .refl _
    · rw [Node.filesBelow]
      split
      · exact .refl []
      · exact ⟨by simp [hnames], List.nil_subset _⟩

/-! ## 4. Saving -/

/-- Saving a text fills the tree, and the path leads to the target. -/
theorem exists_filled_of_saveText (hd : tree.HasDirectory) {text : String}
    (h : (saveText path text).exec tree = (.ok (), after)) :
    ∃ target, tree.Filled target after ∧ after.fileNames? path = some target := by
  obtain ⟨between, hmade, hwrite⟩ := exists_made_of_saveText hd h
  have hbetween := hmade.grows.keepsWays.hasDirectory hd
  obtain ⟨place, hplace, hslot, rfl⟩ := writeText_eq_ok hbetween hwrite
  refine ⟨place.names, .file _ (.made hmade) hslot, fileNames?_eq_some.mpr ⟨.text text, ?_⟩⟩
  exact (keepsWays_put hslot _).place hbetween hplace (by simp) (at?_put hslot _)

theorem Filled.saveText (h : tree.Filled target other) (hd : tree.HasDirectory)
    (hnames : other.fileNames? path = some target) {text : String} {result : Except WriteError Unit}
    (hsave : (saveText path text).exec other = (result, after)) :
    result = .ok () ∧ tree.Filled target after ∧ after.fileNames? path = some target := by
  have hother := h.keepsWays.hasDirectory hd
  obtain ⟨old, hplace⟩ := fileNames?_eq_some.mp hnames
  have hat : other.top.at? target = some (.file old) := isIn_of_place hother hplace
  rw [exec_saveText_of_fileNames? hother hnames] at hsave
  obtain ⟨rfl, rfl⟩ := Prod.mk.inj hsave
  exact ⟨rfl, .file _ h (Node.hasSlot_of_file hat), by rwa [fileNames?_put hother hat]⟩

end Tree

end Scrutiny
