import Mathlib.Tactic.Common
import Scrutiny.Proofs.Tree.Resolution
import Scrutiny.Worklist.File

/-!
Saving a file.  A saved text is read back, and every other file that could be read before is read
as before: making directories only adds to a tree, and writing changes what lies under one list
of names.
-/

namespace Scrutiny

/-! ## 1. Running steps -/

/-- What a step gives on a tree, and the tree that it leaves. -/
def TreeStep.exec {ε α : Type} (step : TreeStep ε α) (tree : Tree) : Except ε α × Tree :=
  StateT.run (ExceptT.run step) tree

namespace TreeStep

variable {ε ε' α β : Type}

@[simp]
theorem exec_pure (a : α) (tree : Tree) : (pure a : TreeStep ε α).exec tree = (.ok a, tree) := rfl

@[simp]
theorem exec_get (tree : Tree) : (get : TreeStep ε Tree).exec tree = (.ok tree, tree) := rfl

@[simp]
theorem exec_set (new tree : Tree) : (set new : TreeStep ε PUnit).exec tree = (.ok ⟨⟩, new) := rfl

@[simp]
theorem exec_throw (error : ε) (tree : Tree) :
    (throw error : TreeStep ε α).exec tree = (.error error, tree) := rfl

theorem exec_pure_eq_ok {a b : α} {tree after : Tree} :
    (pure a : TreeStep ε α).exec tree = (.ok b, after) ↔ a = b ∧ tree = after := by
  simp

theorem exec_get_bind (next : Tree → TreeStep ε β) (tree : Tree) :
    (get >>= next).exec tree = (next tree).exec tree := rfl

theorem exec_bind (step : TreeStep ε α) (next : α → TreeStep ε β) (tree : Tree) :
    (step >>= next).exec tree =
      match step.exec tree with
      | (.ok a, after) => (next a).exec after
      | (.error error, after) => (.error error, after) := by
  unfold exec
  rw [ExceptT.run_bind, StateT.run_bind]
  cases StateT.run (ExceptT.run step) tree with
  | mk result after => cases result <;> rfl

@[simp]
theorem exec_adapt (f : ε → ε') (step : TreeStep ε α) (tree : Tree) :
    TreeStep.exec (ExceptT.adapt f step) tree =
      ((step.exec tree).1.mapError f, (step.exec tree).2) := rfl

theorem exec_adapt_eq_ok {f : ε → ε'} {step : TreeStep ε α} {tree after : Tree} {a : α} :
    TreeStep.exec (ExceptT.adapt f step) tree = (.ok a, after) ↔
      step.exec tree = (.ok a, after) := by
  rw [exec_adapt]
  cases step.exec tree with
  | mk result between => cases result <;> simp [Except.mapError]

theorem exec_bind_of_ok {step : TreeStep ε α} {next : α → TreeStep ε β} {tree after : Tree} {a : α}
    (h : step.exec tree = (.ok a, after)) : (step >>= next).exec tree = (next a).exec after := by
  rw [exec_bind, h]

-- A sequence of steps that succeeds is two steps that do.
theorem exec_bind_eq_ok {step : TreeStep ε α} {next : α → TreeStep ε β} {tree after : Tree}
    {b : β} : (step >>= next).exec tree = (.ok b, after) ↔
      ∃ a between, step.exec tree = (.ok a, between) ∧ (next a).exec between = (.ok b, after) := by
  rw [exec_bind]
  cases step.exec tree with
  | mk result between =>
    cases result with
    | error error => simp
    | ok a => simp

-- A sequence of steps fails where one of them does.
theorem exec_bind_eq_error {step : TreeStep ε α} {next : α → TreeStep ε β} {tree after : Tree}
    {error : ε} : (step >>= next).exec tree = (.error error, after) ↔
      step.exec tree = (.error error, after) ∨
        ∃ a between, step.exec tree = (.ok a, between) ∧
          (next a).exec between = (.error error, after) := by
  rw [exec_bind]
  cases step.exec tree with
  | mk result between => cases result <;> simp

end TreeStep

namespace Tree

/-! ## 2. Making directories -/

/-- The other tree shows all that the tree shows. -/
structure Grows (tree other : Tree) : Prop where
  directory : other.directory = tree.directory
  shows : ∀ names shown, tree.top.view names = some shown → other.top.view names = some shown

theorem Grows.refl (tree : Tree) : tree.Grows tree :=
  ⟨rfl, fun _ _ h => h⟩

theorem Grows.trans {first second third : Tree} (h : first.Grows second)
    (h' : second.Grows third) : first.Grows third :=
  ⟨h'.directory.trans h.directory, fun names shown hs => h'.shows _ _ (h.shows names shown hs)⟩

theorem Grows.keepsWays {tree other : Tree} (h : tree.Grows other) : tree.KeepsWays other :=
  ⟨h.directory, fun names => h.shows names _, fun names _ => h.shows names _⟩

theorem isIn_of_placeOf {tree : Tree} (hd : tree.HasDirectory) {last : Bool} {path : Path}
    {steps : List Step} {place : Place} (h : tree.placeOf last path steps = .ok place) :
    place.IsIn tree := by
  rw [placeOf] at h
  split at h
  · exact absurd h (by simp)
  · exact isIn_of_resolve (leads_start hd path) h

/-- The other tree is the tree with empty directories made at free names. -/
inductive Made (tree : Tree) : Tree → Prop
  | refl : Made tree tree
  | put {other : Tree} {names : List String} {name : String} {entries : List (String × Node)} :
      Made tree other → other.top.at? names = some (.dir entries) → entries.lookup name = none →
        Made tree (other.put (names ++ [name]) (.dir []))

theorem Made.trans {first second third : Tree} (h : first.Made second) (h' : second.Made third) :
    first.Made third := by
  induction h' with
  | refl => exact h
  | put _ hentries hfree ih => exact ih.put hentries hfree

-- What is free shows nothing.
theorem view_of_free {tree : Tree} {names : List String} {name : String}
    {entries : List (String × Node)} (hentries : tree.top.at? names = some (.dir entries))
    (hfree : entries.lookup name = none) : tree.top.view (names ++ [name]) = none := by
  rw [Node.view, Node.at?_concat, hentries]
  simp [Node.child?, hfree]

theorem view_put_dir {tree : Tree} {names : List String} {name : String}
    {entries : List (String × Node)} (hentries : tree.top.at? names = some (.dir entries))
    (hfree : entries.lookup name = none) (others : List String) :
    (tree.put (names ++ [name]) (.dir [])).top.view others =
      if others = names ++ [name] then some (.dir []) else tree.top.view others :=
  Node.view_put Node.isFlat_emptyDir (Node.hasSlot_of_free hentries hfree) others

theorem Made.grows {tree other : Tree} (h : tree.Made other) : tree.Grows other := by
  induction h with
  | refl => exact .refl tree
  | put _ hentries hfree ih =>
    refine ih.trans ⟨rfl, fun others shown hshown => ?_⟩
    rw [view_put_dir hentries hfree, if_neg, hshown]
    rintro rfl
    rw [view_of_free hentries hfree] at hshown
    exact absurd hshown (by simp)

theorem made_makeDir {tree made : Tree} (hd : tree.HasDirectory) {path : Path}
    (h : tree.makeDir path = .ok made) : tree.Made made := by
  rw [makeDir] at h
  split at h
  next names name hplace =>
    obtain ⟨entries, hentries, hfree⟩ := isIn_of_placeOf hd hplace
    rw [Except.ok.injEq] at h
    exact h ▸ .put .refl hentries hfree
  next => exact absurd h (by simp)
  next => exact absurd h (by simp)

/-- Making directories makes them at free names, also where it fails. -/
theorem made_makeDirsWithin (depth : Nat) {tree : Tree} (hd : tree.HasDirectory) (path : Path) :
    tree.Made (makeDirsWithin depth tree path).2 := by
  fun_induction makeDirsWithin depth tree path with
  | case1 | case7 | case8 | case9 => exact .refl
  | case2 _ _ _ _ _ hmade => exact made_makeDir hd hmade
  -- the directory above is missing, so it was made first
  | case3 _ _ _ _ _ _ _ _ hparents _ ih | case5 _ _ _ _ _ _ _ hparents _ _ _ _ ih
  | case6 _ _ _ _ _ _ _ hparents _ _ _ _ ih =>
    have hmade := ih hd
    rw [hparents] at hmade
    exact hmade
  | case4 _ _ _ _ _ _ _ hparents _ hlast _ ih =>
    have hmade := ih hd
    rw [hparents] at hmade
    exact hmade.trans (made_makeDir (hmade.grows.keepsWays.hasDirectory hd) hlast)

theorem made_makeDirs {tree : Tree} (hd : tree.HasDirectory) (path : Path) :
    tree.Made (tree.makeDirs path).2 :=
  made_makeDirsWithin _ hd path

/-! ## 3. Writing -/

theorem writeText_eq_ok {tree after : Tree} (hd : tree.HasDirectory) {path : Path} {text : String}
    (h : tree.writeText path text = .ok after) :
    ∃ place, tree.place true path = .ok place ∧ tree.top.hasSlot place.names ∧
      after = tree.put place.names (.file (.text text)) := by
  rw [writeText, writeFile] at h
  have hplace : ∀ place, tree.placeToWrite path = .ok place → tree.place true path = .ok place := by
    intro place hplace
    rw [placeToWrite] at hplace
    split at hplace
    · split at hplace <;> exact absurd hplace (by simp)
    · exact hplace
  split at h
  next => exact absurd h (by simp)
  next names node hnode hfound =>
    rw [Except.ok.injEq] at h
    refine ⟨.found names node, hplace _ hfound, ?_, h.symm⟩
    refine hasSlot_of_place hd (hplace _ hfound) fun others entries heq => ?_
    rw [Place.found.injEq] at heq
    exact hnode entries heq.2
  next names name hfree =>
    rw [Except.ok.injEq] at h
    refine ⟨.free names name, hplace _ hfree, ?_, h.symm⟩
    exact hasSlot_of_place hd (hplace _ hfree) (by simp)
  next => exact absurd h (by simp)

/-! ## 4. Files that are held -/

/-- The path leads to a file under the given names, and the file holds the text. -/
structure Holds (tree : Tree) (path : Path) (names : List String) (text : String) : Prop where
  directory : tree.HasDirectory
  place : tree.place true path = .ok (.found names (.file (.text text)))

theorem Holds.readText? {tree : Tree} {path : Path} {names : List String} {text : String}
    (h : tree.Holds path names text) : tree.readText? path = some text := by
  simp [Tree.readText?, content?, node?, h.place, Content.text?]

theorem Holds.at? {tree : Tree} {path : Path} {names : List String} {text : String}
    (h : tree.Holds path names text) : tree.top.at? names = some (.file (.text text)) :=
  isIn_of_place h.directory h.place

-- A file is held under one list of names, with one text.
theorem Holds.unique {tree : Tree} {path : Path} {names names' : List String}
    {text text' : String} (h : tree.Holds path names text) (h' : tree.Holds path names' text') :
    names' = names ∧ text' = text := by
  have heq := h'.place.symm.trans h.place
  simpa using heq

theorem holds_of_readText? {tree : Tree} (hd : tree.HasDirectory) {path : Path} {text : String}
    (h : tree.readText? path = some text) : ∃ names, tree.Holds path names text := by
  rw [Tree.readText?, content?, node?] at h
  split at h
  next content hcontent =>
    split at hcontent
    next names node hplace =>
      rw [Option.some.injEq] at hcontent
      subst hcontent
      refine ⟨names, hd, ?_⟩
      cases content with
      | binary raw => simp [Content.text?] at h
      | text written =>
        have hwritten : written = text := by simpa [Content.text?] using h
        rw [hplace, hwritten]
    next => exact absurd hcontent (by simp)
  next => exact absurd h (by simp)

/-- A file is held in every tree that keeps the ways and holds it where it lies. -/
theorem Holds.of_keepsWays {tree other : Tree} (hkeeps : tree.KeepsWays other) {path : Path}
    {names : List String} {text text' : String} (h : tree.Holds path names text)
    (hfile : other.top.at? names = some (.file (.text text'))) : other.Holds path names text' :=
  ⟨hkeeps.hasDirectory h.directory, hkeeps.place h.directory h.place (by simp) hfile⟩

theorem Grows.holds {tree other : Tree} (hgrows : tree.Grows other) {path : Path}
    {names : List String} {text : String} (h : tree.Holds path names text) :
    other.Holds path names text :=
  h.of_keepsWays hgrows.keepsWays
    (Node.view_eq_file.mp (hgrows.shows names _ (Node.view_eq_file.mpr h.at?)))

-- Putting a file into a slot hides nothing but a file.
theorem view_put_of_not_file {tree : Tree} {names : List String}
    (hslot : tree.top.hasSlot names) (content : Content) {others : List String} {shown : Node}
    (hshown : ∀ old, shown ≠ .file old) (h : tree.top.view others = some shown) :
    (tree.put names (.file content)).top.view others = some shown := by
  have hothers : others ≠ names := by
    rintro rfl
    rcases Node.view_of_hasSlot hslot with hnone | ⟨old, hold⟩
    · exact absurd (hnone.symm.trans h) (by simp)
    · exact hshown old (Option.some.inj (h.symm.trans hold))
  rw [Tree.put, Node.view_put (Node.isFlat_file content) hslot, if_neg hothers, h]

theorem keepsWays_put {tree : Tree} {names : List String} (hslot : tree.top.hasSlot names)
    (content : Content) : tree.KeepsWays (tree.put names (.file content)) :=
  ⟨rfl, fun _ => view_put_of_not_file hslot content (by simp),
    fun _ _ => view_put_of_not_file hslot content (by simp)⟩

theorem at?_put {tree : Tree} {names : List String} (hslot : tree.top.hasSlot names)
    (content : Content) :
    (tree.put names (.file content)).top.at? names = some (.file content) := by
  apply Node.view_eq_file.mp
  rw [Tree.put, Node.view_put (Node.isFlat_file content) hslot, if_pos rfl]
  rfl

theorem Holds.put {tree : Tree} {target : List String} (hslot : tree.top.hasSlot target)
    (text : String) {path : Path} {names : List String} {old : String}
    (h : tree.Holds path names old) :
    (tree.put target (.file (.text text))).Holds path names
      (if names = target then text else old) := by
  apply h.of_keepsWays (keepsWays_put hslot _)
  by_cases hnames : names = target
  · rw [if_pos hnames, hnames]
    exact at?_put hslot _
  · apply Node.view_eq_file.mp
    rw [if_neg hnames, Tree.put, Node.view_put (Node.isFlat_file _) hslot, if_neg hnames]
    exact Node.view_eq_file.mpr h.at?

/-! ## 5. Saving -/

/-- The other tree holds the text under the target, and all else that the tree holds. -/
structure Saved (tree other : Tree) (path : Path) (target : List String) (text : String) :
    Prop where
  holds : other.Holds path target text
  frame : ∀ {path' names old}, tree.Holds path' names old →
    other.Holds path' names (if names = target then text else old)

theorem saved_of_writeText {tree after : Tree} (hd : tree.HasDirectory) {path : Path}
    {text : String} (h : tree.writeText path text = .ok after) :
    ∃ target, tree.Saved after path target text := by
  obtain ⟨place, hplace, hslot, rfl⟩ := writeText_eq_ok hd h
  have hkeeps := keepsWays_put hslot (.text text)
  refine ⟨place.names, ⟨hkeeps.hasDirectory hd, ?_⟩, Holds.put hslot text⟩
  exact hkeeps.place hd hplace (by simp) (at?_put hslot _)

theorem Grows.saved {tree between after : Tree} (hgrows : tree.Grows between) {path : Path}
    {target : List String} {text : String} (h : between.Saved after path target text) :
    tree.Saved after path target text :=
  ⟨h.holds, fun hold => h.frame (hgrows.holds hold)⟩

/-- Saving makes directories and then writes. -/
theorem exists_made_of_saveText {tree after : Tree} (hd : tree.HasDirectory) {path : Path}
    {text : String} (h : (saveText path text).exec tree = (.ok (), after)) :
    ∃ between, tree.Made between ∧ between.writeText path text = .ok after := by
  rw [saveText] at h
  cases hparent : path.parent? with
  | none =>
    rw [hparent] at h
    refine ⟨tree, .refl, ?_⟩
    simp only [TreeStep.exec_bind, TreeStep.exec_get] at h
    cases hwrite : tree.writeText path text with
    | error error => simp [hwrite] at h
    | ok written => simpa [hwrite] using h
  | some parent =>
    rw [hparent] at h
    refine ⟨(tree.makeDirs parent).2, made_makeDirs hd parent, ?_⟩
    simp only [TreeStep.exec_bind, TreeStep.exec_get, TreeStep.exec_set] at h
    cases hmade : (tree.makeDirs parent).1 with
    | error error => simp [hmade] at h
    | ok =>
      simp only [hmade, TreeStep.exec_bind, TreeStep.exec_get] at h
      cases hwrite : (tree.makeDirs parent).2.writeText path text with
      | error error => simp [hwrite] at h
      | ok written => simpa [hwrite] using h

/-- A text that is saved is held, and no other file changes. -/
theorem saved_of_saveText {tree after : Tree} (hd : tree.HasDirectory) {path : Path}
    {text : String} (h : (saveText path text).exec tree = (.ok (), after)) :
    ∃ target, tree.Saved after path target text := by
  obtain ⟨between, hmade, hwrite⟩ := exists_made_of_saveText hd h
  obtain ⟨target, hsaved⟩ := saved_of_writeText (hmade.grows.keepsWays.hasDirectory hd) hwrite
  exact ⟨target, hmade.grows.saved hsaved⟩

end Tree

end Scrutiny
