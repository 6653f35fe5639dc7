import Scrutiny.Proofs.Tree.Descent
import Scrutiny.Proofs.Tree.Saving

/-!
Saving where a file is, and saving that fails.  A path that leads to a file can be written: the
directories above it are there, nothing is made, and only the file's content changes.  So where
saving fails, the path leads to no file, neither before nor after.
-/

namespace Scrutiny.Tree

/-! ## 1. Files that paths lead to -/

/-- The names of the file that a path leads to, all links followed. -/
def fileNames? (tree : Tree) (path : Path) : Option (List String) :=
  match tree.place true path with
  | .ok (.found names (.file _)) => some names
  | _ => none

section Files

variable {tree other : Tree} {path : Path} {names : List String} {content : Content}

theorem fileNames?_eq_some :
    tree.fileNames? path = some names ↔
      ∃ content, tree.place true path = .ok (.found names (.file content)) := by
  rw [fileNames?]
  split
  next others content hplace =>
    rw [Option.some.injEq]
    constructor
    · rintro rfl
      exact ⟨content, hplace⟩
    · rintro ⟨other, hother⟩
      rw [hplace] at hother
      simp_all
  next hplace =>
    refine ⟨fun h => absurd h (by simp), ?_⟩
    rintro ⟨content, hcontent⟩
    exact absurd hcontent (hplace names content)

theorem content?_eq_some :
    tree.content? path = some content ↔
      ∃ names, tree.place true path = .ok (.found names (.file content)) := by
  rw [content?, node?]
  cases hplace : tree.place true path with
  | error error => simp
  | ok place =>
    cases place with
    | free names name => simp
    | found names node => cases node <;> simp

/-- What a path reads is the content of the file that it leads to. -/
theorem content?_eq_some_iff (hd : tree.HasDirectory) :
    tree.content? path = some content ↔
      ∃ names, tree.fileNames? path = some names ∧ tree.top.at? names = some (.file content) := by
  rw [content?_eq_some]
  refine exists_congr fun names => ?_
  constructor
  · intro hplace
    exact ⟨fileNames?_eq_some.mpr ⟨content, hplace⟩, isIn_of_place hd hplace⟩
  · rintro ⟨hnames, hat⟩
    obtain ⟨old, hplace⟩ := fileNames?_eq_some.mp hnames
    have hold : tree.top.at? names = some (.file old) := isIn_of_place hd hplace
    rw [hat, Option.some.injEq, Node.file.injEq] at hold
    exact hold ▸ hplace

theorem isSome_content? : (tree.content? path).isSome = (tree.fileNames? path).isSome := by
  rw [content?, node?, fileNames?]
  cases tree.place true path with
  | error error => rfl
  | ok place =>
    cases place with
    | free names name => rfl
    | found names node => cases node <;> rfl

theorem content?_eq_none (h : tree.fileNames? path = none) : tree.content? path = none := by
  rw [← Option.not_isSome_iff_eq_none, isSome_content?, h]
  exact Bool.false_ne_true

theorem readText?_eq_none (h : tree.fileNames? path = none) : tree.readText? path = none := by
  rw [Tree.readText?, content?_eq_none h]
  rfl

theorem readText?_of_place {text : String}
    (h : tree.place true path = .ok (.found names (.file (.text text)))) :
    tree.readText? path = some text := by
  rw [Tree.readText?, content?_eq_some.mpr ⟨names, h⟩]
  rfl

/-- A path leads to the same file where its ways are kept and the file is still one. -/
theorem KeepsWays.fileNames? (hkeeps : tree.KeepsWays other) (hd : tree.HasDirectory)
    (hnames : tree.fileNames? path = some names)
    (hfiles : ∀ old, tree.top.at? names = some (.file old) →
      ∃ new, other.top.at? names = some (.file new)) : other.fileNames? path = some names := by
  obtain ⟨old, hplace⟩ := fileNames?_eq_some.mp hnames
  obtain ⟨new, hnew⟩ := hfiles old (isIn_of_place hd hplace)
  exact fileNames?_eq_some.mpr ⟨new, hkeeps.place hd hplace (by simp) hnew⟩

end Files

/-! ## 2. Writing where a file is -/

section Writing

variable {tree : Tree} {path : Path} {names : List String} {old : Content}

theorem endsInSlash_of_fileNames? (hd : tree.HasDirectory)
    (h : tree.fileNames? path = some names) : endsInSlash path.text = false := by
  rw [← Bool.not_eq_true]
  intro hslash
  obtain ⟨content, hplace⟩ := fileNames?_eq_some.mp h
  obtain ⟨hflaw, hresolve⟩ := place_eq_ok.mp hplace
  rw [stepsOf, if_pos hslash] at hresolve
  obtain ⟨others, entries, hdir⟩ := resolve_of_append (leads_start hd path) (by simp) hresolve
  have hplace' := (place_eq_dir hd).mpr ⟨hflaw, hdir⟩
  rw [hplace] at hplace'
  simp at hplace'

theorem writeText_of_fileNames? (hd : tree.HasDirectory) (h : tree.fileNames? path = some names)
    (text : String) :
    tree.writeText path text = .ok (tree.put names (.file (.text text))) := by
  obtain ⟨content, hplace⟩ := fileNames?_eq_some.mp h
  have hto : tree.placeToWrite path = tree.place true path := by
    rw [placeToWrite, endsInSlash_of_fileNames? hd h]
  rw [writeText, writeFile, hto, hplace]

theorem keepsWays_of_put (hfile : tree.top.at? names = some (.file old)) (content : Content) :
    (tree.put names (.file content)).KeepsWays tree := by
  have hview : ∀ others shown, (∀ raw, shown ≠ .file raw) →
      (tree.put names (.file content)).top.view others = some shown →
        tree.top.view others = some shown := by
    intro others shown hshown h
    rw [Tree.put, Node.view_put (Node.isFlat_file content) (Node.hasSlot_of_file hfile)] at h
    split at h
    · exact absurd (Option.some.inj h).symm (hshown content)
    · exact h
  exact ⟨rfl, fun others => hview others _ (by simp), fun others target => hview others _ (by simp)⟩

-- What lies under other names than those of a file that is written.
theorem at?_put_file (hfile : tree.top.at? names = some (.file old)) (content raw : Content)
    (others : List String) :
    (tree.put names (.file content)).top.at? others = some (.file raw) ↔
      if others = names then raw = content else tree.top.at? others = some (.file raw) := by
  rw [← Node.view_eq_file, Tree.put,
    Node.view_put (Node.isFlat_file content) (Node.hasSlot_of_file hfile)]
  by_cases hothers : others = names
  · rw [if_pos hothers, if_pos hothers, Node.shape, Option.some.injEq, Node.file.injEq, eq_comm]
  · rw [if_neg hothers, if_neg hothers, Node.view_eq_file]

theorem fileNames?_put (hd : tree.HasDirectory) (hfile : tree.top.at? names = some (.file old))
    (content : Content) (path : Path) :
    (tree.put names (.file content)).fileNames? path = tree.fileNames? path := by
  have hkeeps := keepsWays_put (Node.hasSlot_of_file hfile) content
  apply Option.ext
  intro others
  constructor
  · intro h
    refine (keepsWays_of_put hfile content).fileNames? (hkeeps.hasDirectory hd) h fun raw hraw => ?_
    rw [at?_put_file hfile] at hraw
    split at hraw
    next heq => exact ⟨old, heq ▸ hfile⟩
    next => exact ⟨raw, hraw⟩
  · intro h
    refine hkeeps.fileNames? hd h fun raw hraw => ?_
    by_cases heq : others = names
    · exact ⟨content, (at?_put_file hfile content content others).mpr (by rw [if_pos heq])⟩
    · exact ⟨raw, (at?_put_file hfile content raw others).mpr (by rwa [if_neg heq])⟩

theorem content?_put (hd : tree.HasDirectory) (hfile : tree.top.at? names = some (.file old))
    (content : Content) (hpath : tree.fileNames? path ≠ some names) :
    (tree.put names (.file content)).content? path = tree.content? path := by
  have hkeeps := keepsWays_put (Node.hasSlot_of_file hfile) content
  apply Option.ext
  intro raw
  rw [content?_eq_some_iff (hkeeps.hasDirectory hd), content?_eq_some_iff hd,
    fileNames?_put hd hfile]
  refine exists_congr fun others => and_congr_right fun hothers => ?_
  have hne : others ≠ names := by
    rintro rfl
    exact hpath hothers
  rw [at?_put_file hfile, if_neg hne]

end Writing

/-! ## 3. Directories that are there -/

section Directories

variable {tree : Tree} {path : Path}

-- Steps that lead to a directory lead to it, or to a link, where the last link is not followed.
theorem resolve_false_of_dir {links : Nat} {trail : Trail} {steps : List Step}
    {names : List String} {entries : List (String × Node)}
    (h : tree.resolve true links trail steps = .ok (.found names (.dir entries))) :
    ∃ others node, tree.resolve false links trail steps = .ok (.found others node) := by
  fun_induction tree.resolve true links trail steps with
  | case1 links trail => exact ⟨_, _, resolve_nil⟩
  | case2 _ _ _ _ hdir ih =>
    rw [resolve_stay hdir]
    exact ih h
  | case3 _ _ _ _ hdir ih =>
    rw [resolve_up hdir]
    exact ih h
  | case9 trail rest _ hdir name hname target hentry _ _ start ih =>
    by_cases hrest : rest = []
    · subst hrest
      refine ⟨trail.names ++ [name], .link target, ?_⟩
      rw [resolve, hdir]
      simp [hname, hentry]
    · rw [resolve_enter_link hdir hname hentry (by simp [hrest])]
      exact ih h
  | case10 _ _ _ _ hdir name hname node hnode hentry ih =>
    rw [resolve_enter_node hdir hname hentry hnode]
    exact ih h
  | case5 => simp at h
  | case7 _ _ _ _ _ _ _ _ _ hlast => simp at hlast
  | case4 | case6 | case8 | case11 => exact absurd h (by simp)

theorem isDir_eq_true : tree.isDir path = true ↔
    ∃ names entries, tree.place true path = .ok (.found names (.dir entries)) := by
  rw [isDir, node?]
  cases tree.place true path with
  | error error => simp
  | ok place =>
    cases place with
    | free names name => simp
    | found names node => cases node <;> simp [Node.isDir]

theorem makeDir_of_isDir (hd : tree.HasDirectory) (h : tree.isDir path = true) :
    tree.makeDir path = .error .exists := by
  obtain ⟨names, entries, hplace⟩ := isDir_eq_true.mp h
  obtain ⟨hflaw, hresolve⟩ := (place_eq_dir hd).mp hplace
  obtain ⟨others, node, hfound⟩ := resolve_false_of_dir hresolve
  rw [start] at hfound
  rw [makeDir, placeOf, hflaw, hfound]

theorem makeDirs_of_isDir (hd : tree.HasDirectory) (h : tree.isDir path = true) :
    tree.makeDirs path = (.ok (), tree) := by
  rw [makeDirs]
  unfold makeDirsWithin
  rw [makeDir_of_isDir hd h]
  simp [h]

-- Nothing lies above a single name, and so nothing is made.
theorem makeDirsWithin_of_empty (depth : Nat) (h : path.text = "") :
    makeDirsWithin depth tree path = (.ok (), tree) := by
  unfold makeDirsWithin
  simp [h]

/-- Where directories could not be made, the path leads to none. -/
theorem isDir_of_makeDirsWithin (depth : Nat) (hd : tree.HasDirectory) {error : OsError}
    {made : Tree} (h : makeDirsWithin depth tree path = (.error error, made)) :
    made.isDir path = false := by
  fun_induction makeDirsWithin depth tree path generalizing error made with
  | case1 => simp at h
  | case2 => simp at h
  | case4 => simp at h
  | case5 => simp at h
  | case8 => simp at h
  -- the directory above could not be made, and without it there is none here
  | case3 tree path _ depth parent hparent _ between hparents _ ih =>
    obtain ⟨-, rfl⟩ := Prod.mk.inj h
    have hgrows := (made_makeDirsWithin depth hd parent).grows
    rw [hparents] at hgrows
    have hne : parent.text ≠ "" := by
      intro hempty
      rw [makeDirsWithin_of_empty depth hempty] at hparents
      simp at hparents
    rw [← Bool.not_eq_true]
    intro hdir
    obtain ⟨names, entries, hplace⟩ := isDir_eq_true.mp hdir
    have habove := isDir_of_parent? (hgrows.keepsWays.hasDirectory hd) hplace hparent hne
    rw [ih hd hparents] at habove
    exact Bool.false_ne_true habove
  | case6 _ _ _ _ _ _ _ _ _ _ hdir =>
    obtain ⟨-, rfl⟩ := Prod.mk.inj h
    exact eq_false_of_ne_true hdir
  | case7 _ tree path _ _ hmissing =>
    obtain ⟨-, rfl⟩ := Prod.mk.inj h
    rw [← Bool.not_eq_true]
    intro hdir
    rw [makeDir_of_isDir hd hdir] at hmissing
    simp at hmissing
  | case9 _ _ _ _ _ _ _ hdir =>
    obtain ⟨-, rfl⟩ := Prod.mk.inj h
    exact eq_false_of_ne_true hdir

end Directories

/-! ## 4. Saving -/

section Saving

variable {tree after : Tree} {path : Path} {names : List String} {text : String}

/-- Saving where the path leads to a file changes the content of that file and nothing else. -/
theorem exec_saveText_of_fileNames? (hd : tree.HasDirectory)
    (h : tree.fileNames? path = some names) (text : String) :
    (saveText path text).exec tree = (.ok (), tree.put names (.file (.text text))) := by
  have hwrite := writeText_of_fileNames? hd h text
  obtain ⟨content, hplace⟩ := fileNames?_eq_some.mp h
  rw [saveText]
  cases hparent : path.parent? with
  | none => simp [TreeStep.exec_bind, hwrite]
  | some parent =>
    have hmade : tree.makeDirs parent = (.ok (), tree) := by
      by_cases hne : parent.text = ""
      · exact makeDirsWithin_of_empty _ hne
      · exact makeDirs_of_isDir hd (isDir_of_parent? hd hplace hparent hne)
    simp [TreeStep.exec_bind, hmade, hwrite]

/-- Where saving failed, the path leads to no file, neither before nor after, and at most
directories were made. -/
theorem fileNames?_of_saveText_error (hd : tree.HasDirectory) {error : WriteError}
    (h : (saveText path text).exec tree = (.error error, after)) :
    tree.Grows after ∧ tree.fileNames? path = none ∧ after.fileNames? path = none := by
  have hbefore : tree.fileNames? path = none := by
    rw [Option.eq_none_iff_forall_ne_some]
    intro names hnames
    rw [exec_saveText_of_fileNames? hd hnames] at h
    simp at h
  -- where the file could not be written, the path leads to none
  have hwritten : ∀ {made : Tree} {error : OsError}, made.HasDirectory →
      made.writeText path text = .error error → made.fileNames? path = none := by
    intro made error hmade hwrite
    rw [Option.eq_none_iff_forall_ne_some]
    intro names hnames
    rw [writeText_of_fileNames? hmade hnames] at hwrite
    simp at hwrite
  rw [saveText] at h
  cases hparent : path.parent? with
  | none =>
    rw [hparent] at h
    cases hwrite : tree.writeText path text with
    | ok written => simp [TreeStep.exec_bind, hwrite] at h
    | error error =>
      have hafter : tree = after := by
        simpa [TreeStep.exec_bind, hwrite] using congrArg Prod.snd h
      exact hafter ▸ ⟨.refl tree, hbefore, hwritten hd hwrite⟩
  | some parent =>
    have hgrows := (made_makeDirs hd parent).grows
    rw [hparent] at h
    rcases hmakeDirs : tree.makeDirs parent with ⟨result, made⟩
    rw [hmakeDirs] at hgrows
    have hmade := hgrows.keepsWays.hasDirectory hd
    cases result with
    | error error =>
      have hafter : made = after := by
        simpa [TreeStep.exec_bind, hmakeDirs] using congrArg Prod.snd h
      refine hafter ▸
        ⟨hgrows, hbefore, Option.eq_none_iff_forall_ne_some.mpr fun names hnames => ?_⟩
      obtain ⟨content, hplace⟩ := fileNames?_eq_some.mp hnames
      by_cases hne : parent.text = ""
      · rw [makeDirs, makeDirsWithin_of_empty _ hne] at hmakeDirs
        simp at hmakeDirs
      · have habove := isDir_of_parent? hmade hplace hparent hne
        rw [isDir_of_makeDirsWithin _ hd hmakeDirs] at habove
        exact Bool.false_ne_true habove
    | ok =>
      cases hwrite : made.writeText path text with
      | ok written => simp [TreeStep.exec_bind, hmakeDirs, hwrite] at h
      | error error =>
        have hafter : made = after := by
          simpa [TreeStep.exec_bind, hmakeDirs, hwrite] using congrArg Prod.snd h
        exact hafter ▸ ⟨hgrows, hbefore, hwritten hmade hwrite⟩

end Saving

end Scrutiny.Tree
