import Scrutiny.Proofs.State.Rejection
import Scrutiny.Proofs.Tree.Resaving

/-!
Reviews that fail.  A review saves the worklist and then the preference log, each of which may
fail.  If the worklist cannot be saved nothing else happens; if the log cannot, the criticism has
already moved.  Nothing is taken back.
-/

namespace Scrutiny

/-! ## 1. Moving a criticism -/

namespace Worklist

/-- The first record with the identity is in another state, with the reasoning that was given, if
any; all else is as it was. -/
def Moved (worklist moved : Worklist) (id : String) (status : Status)
    (reasoning : Option String) : Prop :=
  ∃ front record back, worklist.criticisms = front ++ record :: back ∧
    (∀ other ∈ front, other.id ≠ id) ∧ record.id = id ∧
    moved = { worklist with
      criticisms := front ++ { record with
        status := status
        reasoning := reasoning.orElse fun _ => record.reasoning } :: back }

theorem changeFirst_append {holds : Criticism → Bool} {change : Criticism → Criticism}
    {front back : List Criticism} {record : Criticism}
    (hfront : ∀ other ∈ front, holds other = false) (hrecord : holds record = true) :
    changeFirst holds change (front ++ record :: back) = front ++ change record :: back := by
  induction front with
  | nil => rw [List.nil_append, changeFirst, if_pos hrecord, List.nil_append]
  | cons other front ih =>
    rw [List.forall_mem_cons] at hfront
    rw [List.cons_append, changeFirst, if_neg (by simp [hfront.1]), ih hfront.2, List.cons_append]

theorem moved_of_setStatus? {worklist moved : Worklist} {id : String} {status : Status}
    {reasoning : Option String} (h : worklist.setStatus? id status reasoning = some moved) :
    worklist.Moved moved id status reasoning := by
  obtain ⟨record, hget, h⟩ := Option.bind_eq_some_iff.mp h
  obtain ⟨changed, hchanged, h⟩ := Option.bind_eq_some_iff.mp h
  obtain ⟨hid, front, back, hsplit, hfront⟩ := List.find?_eq_some_iff_append.mp hget
  obtain ⟨-, rfl⟩ := Criticism.setStatus?_eq_some hchanged
  refine ⟨front, record, back, hsplit, fun other hother hsame => ?_, by simpa using hid, ?_⟩
  · simpa [hsame] using hfront other hother
  · rw [← Option.some.inj h, hsplit, changeFirst_append (by simpa using hfront) hid]

theorem Moved.isDated {worklist moved : Worklist} {id : String} {status : Status}
    {reasoning : Option String} (h : worklist.Moved moved id status reasoning)
    (hdated : worklist.IsDated) : moved.IsDated := by
  obtain ⟨front, record, back, hsplit, -, -, rfl⟩ := h
  have hcriticisms := hdated.criticisms
  rw [hsplit] at hcriticisms
  refine ⟨fun criticism hmem => ?_, hdated.lastAnalysis⟩
  rcases List.mem_append.mp hmem with hfront | hback
  · exact hcriticisms criticism (List.mem_append_left _ hfront)
  · rcases List.mem_cons.mp hback with rfl | hback
    · exact hcriticisms record (by simp)
    · exact hcriticisms criticism (by simp [hback])

end Worklist

/-! ## 2. Ways of saving -/

/-- A way of saving a text to a file. -/
abbrev Saver : Type :=
  Path → String → TreeStep WriteError Unit

/-- A file is saved as it is in a tree, or saving fails, for whatever reason; then every other
file is left as it was. -/
def Saver.IsFaithful (save : Saver) : Prop :=
  ∀ path text tree, tree.HasDirectory →
    (save path text).exec tree = (Tree.saveText path text).exec tree ∨
      ∃ error after, (save path text).exec tree = (.error error, after) ∧
        ∀ other, tree.fileNames? other ≠ tree.fileNames? path →
          after.readText? other = tree.readText? other

theorem isFaithful_saveText : Saver.IsFaithful Tree.saveText :=
  fun _ _ _ _ => Or.inl rfl

/-- Moves a criticism to another state in a worklist that is saved in the given way. -/
def WorklistFile.setStatusBy (save : Saver) (file : WorklistFile) (id : String) (status : Status)
    (reasoning : Option String) : TreeStep WriteError Bool := do
  match (file.load (← get)).setStatus? id status reasoning with
  | some worklist =>
      save file.path (worklist.text ++ "\n")
      pure true
  | none => pure false

/-- Reviews a criticism and saves files in the given way. -/
def reviewBy (save : Saver) (files : StateFiles) (today : Date) (verb : Verb) (id : String)
    (reason : Option String) : TreeStep WriteError ReviewOutcome := do
  let reasoning := reviewReasoning verb reason
  if ← files.worklist.setStatusBy save id verb.status reasoning then
    match (files.worklist.load (← get)).get? id with
    | none => pure .notFound
    | some criticism =>
        match verb.decision? with
        | some decision =>
            let log := files.preferences.load (← get)
            save files.preferences.path
              (PreferenceLog.insert log (criticism.entry today decision reasoning))
        | none => pure ()
        pure (.updated criticism)
  else if (files.worklist.load (← get)).contains id then pure .unchanged
  else pure .notFound

/-- A review saves files as they are saved in a tree. -/
theorem review_eq_reviewBy : review = reviewBy Tree.saveText := by
  funext files today verb id reason
  rfl

/-! ## 3. Where a review fails -/

section Failures

variable {save : Saver} {files : StateFiles} {today : Date} {verb : Verb} {id : String}
  {reason : Option String} {tree after : Tree} {error : WriteError}

/-- A review that fails could not save the worklist, or saved it and could not save the log. -/
theorem exec_reviewBy_error
    (h : (reviewBy save files today verb id reason).exec tree = (.error error, after)) :
    ∃ moved, (files.worklist.load tree).setStatus? id verb.status
        (reviewReasoning verb reason) = some moved ∧
      ((save files.worklist.path (moved.text ++ "\n")).exec tree = (.error error, after) ∨
        ∃ between log,
          (save files.worklist.path (moved.text ++ "\n")).exec tree = (.ok (), between) ∧
          (save files.preferences.path log).exec between = (.error error, after)) := by
  rw [reviewBy, WorklistFile.setStatusBy, bind_assoc, TreeStep.exec_get_bind] at h
  cases hset : (files.worklist.load tree).setStatus? id verb.status
      (reviewReasoning verb reason) with
  | none =>
    rw [hset] at h
    dsimp only at h
    rw [pure_bind, if_neg Bool.false_ne_true, TreeStep.exec_get_bind] at h
    split at h <;> simp at h
  | some moved =>
    refine ⟨moved, rfl, ?_⟩
    rw [hset] at h
    dsimp only at h
    rw [bind_assoc, TreeStep.exec_bind_eq_error] at h
    rcases h with h | ⟨_, between, hsave, h⟩
    · exact Or.inl h
    · refine Or.inr ⟨between, ?_⟩
      rw [pure_bind, if_pos rfl, TreeStep.exec_get_bind] at h
      cases hget : (files.worklist.load between).get? id with
      | none => simp [hget] at h
      | some criticism =>
        cases hdecision : verb.decision? with
        | none => simp [hget, hdecision] at h
        | some decision =>
          rw [hget, hdecision] at h
          dsimp only at h
          rw [TreeStep.exec_get_bind, TreeStep.exec_bind_eq_error] at h
          rcases h with h | ⟨_, last, -, h⟩
          · exact ⟨_, hsave, h⟩
          · simp at h

/-! ## 4. What a failed review leaves -/

-- The log does not lie in the file of a worklist that can be read.
theorem StateFiles.Apart.fileNames?_ne (hapart : files.Apart tree) {names : List String}
    {text : String} (hstore : tree.Holds files.worklist.path names text) :
    tree.fileNames? files.preferences.path ≠ some names := by
  intro hlog
  obtain ⟨content, hplace⟩ := Tree.fileNames?_eq_some.mp hlog
  have hcontent : some (Node.file content) = some (.file (.text text)) :=
    (Tree.isIn_of_place hstore.directory hplace).symm.trans hstore.at?
  rw [Option.some.injEq, Node.file.injEq] at hcontent
  subst hcontent
  exact hapart names text names text hstore ⟨hstore.directory, hplace⟩ rfl

theorem entries_congr
    (h : after.readText? files.preferences.path = tree.readText? files.preferences.path) :
    files.preferences.entries after = files.preferences.entries tree := by
  rw [PreferenceFile.entries, PreferenceFile.entries, PreferenceFile.load, PreferenceFile.load, h]

-- A saver that fails at a file that is there leaves the others alone.
theorem Saver.IsFaithful.others (hsave : save.IsFaithful) (hd : tree.HasDirectory) {path : Path}
    {names : List String} (hnames : tree.fileNames? path = some names) {text : String}
    (h : (save path text).exec tree = (.error error, after)) {other : Path}
    (hother : tree.fileNames? other ≠ some names) :
    after.readText? other = tree.readText? other := by
  rcases hsave path text tree hd with hsame | ⟨failure, left, hfailed, hleft⟩
  · rw [hsame, Tree.exec_saveText_of_fileNames? hd hnames] at h
    simp at h
  · rw [hfailed, Prod.mk.injEq] at h
    exact h.2 ▸ hleft other (hnames ▸ hother)

-- A file that was there is still there after another one could not be saved.
theorem Saver.IsFaithful.kept (hsave : save.IsFaithful) {other : Path} {names : List String}
    {old : String} (hold : tree.Holds other names old) {path : Path} {text : String}
    (h : (save path text).exec tree = (.error error, after))
    (hpath : tree.fileNames? path ≠ some names) : after.readText? other = some old := by
  have hnames : tree.fileNames? other = some names := Tree.fileNames?_eq_some.mpr ⟨_, hold.place⟩
  rcases hsave path text tree hold.directory with hsame | ⟨failure, left, hfailed, hleft⟩
  · rw [hsame] at h
    exact ((Tree.fileNames?_of_saveText_error hold.directory h).1.holds hold).readText?
  · rw [hfailed, Prod.mk.injEq] at h
    rw [← h.2, hleft other (hnames ▸ Ne.symm hpath), hold.readText?]

-- A worklist with a record was read from a file.
theorem exists_holds_of_setStatus? (hd : tree.HasDirectory) {status : Status}
    {reasoning : Option String} {moved : Worklist}
    (h : (files.worklist.load tree).setStatus? id status reasoning = some moved) :
    ∃ names text, tree.Holds files.worklist.path names text := by
  cases hread : tree.readText? files.worklist.path with
  | none =>
    rw [WorklistFile.load_of_missing hread] at h
    exact absurd h (by simp [Worklist.setStatus?, Worklist.get?, Worklist.empty])
  | some text =>
    obtain ⟨names, hholds⟩ := Tree.holds_of_readText? hd hread
    exact ⟨names, text, hholds⟩

/-- The worklist that a review could not save, or saved before it could not save the log, has the
criticism moved. -/
theorem reviewBy_error_cases (hd : tree.HasDirectory)
    (h : (reviewBy save files today verb id reason).exec tree = (.error error, after)) :
    ∃ moved names text, (files.worklist.load tree).Moved moved id verb.status
        (reviewReasoning verb reason) ∧ moved.IsDated ∧
      tree.Holds files.worklist.path names text ∧
      ((save files.worklist.path (moved.text ++ "\n")).exec tree = (.error error, after) ∨
        ∃ between log,
          (save files.worklist.path (moved.text ++ "\n")).exec tree = (.ok (), between) ∧
          (save files.preferences.path log).exec between = (.error error, after)) := by
  obtain ⟨moved, hset, hcases⟩ := exec_reviewBy_error h
  have hmoved := Worklist.moved_of_setStatus? hset
  obtain ⟨names, text, hstore⟩ := exists_holds_of_setStatus? hd hset
  exact ⟨moved, names, text, hmoved, hmoved.isDated (WorklistFile.isDated_load _ _), hstore, hcases⟩

-- A saver that succeeds at a file that is there puts the text there.
theorem Saver.IsFaithful.put (hsave : save.IsFaithful) (hd : tree.HasDirectory) {path : Path}
    {names : List String} (hnames : tree.fileNames? path = some names) {text : String}
    (h : (save path text).exec tree = (.ok (), after)) :
    after = tree.put names (.file (.text text)) := by
  rcases hsave path text tree hd with hsame | ⟨_, _, hfailed, -⟩
  · rw [hsame, Tree.exec_saveText_of_fileNames? hd hnames, Prod.mk.injEq] at h
    exact h.2.symm
  · rw [hfailed] at h
    simp at h

/-- The worklist that was saved is the one that is loaded, though the log could not be saved. -/
theorem load_of_log_failed (hsave : save.IsFaithful) (hapart : files.Apart tree)
    {names : List String} {text : String}
    (hstore : tree.Holds files.worklist.path names text) {moved : Worklist}
    (hdated : moved.IsDated) {between : Tree}
    (hsaved : (save files.worklist.path (moved.text ++ "\n")).exec tree = (.ok (), between))
    {log : String}
    (hfailed : (save files.preferences.path log).exec between = (.error error, after)) :
    files.worklist.load after = moved := by
  have hput := hsave.put hstore.directory (Tree.fileNames?_eq_some.mpr ⟨_, hstore.place⟩) hsaved
  have hheld := Tree.Holds.put (Node.hasSlot_of_file hstore.at?) (moved.text ++ "\n") hstore
  rw [if_pos rfl, ← hput] at hheld
  have hlog : between.fileNames? files.preferences.path ≠ some names := by
    rw [hput, Tree.fileNames?_put hstore.directory hstore.at?]
    exact hapart.fileNames?_ne hstore
  have hkept := hsave.kept hheld hfailed hlog
  rw [WorklistFile.load, hkept, Option.bind_some, Worklist.parse?_text hdated]
  rfl

-- A log that could not be saved as it is in a tree cannot be read.
theorem entries_of_saveText_error {names : List String} {old : Content} (hd : tree.HasDirectory)
    (hfile : tree.top.at? names = some (.file old)) {content : Content} {log : String}
    (h : (Tree.saveText files.preferences.path log).exec (tree.put names (.file content)) =
      (.error error, after)) :
    files.preferences.entries after = files.preferences.entries tree := by
  have hput := (Tree.keepsWays_put (Node.hasSlot_of_file hfile) content).hasDirectory hd
  obtain ⟨-, hbefore, hafter⟩ := Tree.fileNames?_of_saveText_error hput h
  rw [Tree.fileNames?_put hd hfile] at hbefore
  rw [StateFiles.entries_eq_nil (Tree.readText?_eq_none hafter),
    StateFiles.entries_eq_nil (Tree.readText?_eq_none hbefore)]

end Failures

/-- What a review leaves that fails.  As files are saved in a tree the worklist was saved and the
log was not: the criticism has moved and no entry was added.  In whatever other way a write may
fail, either the worklist could not be saved and the log is as it was, or the worklist was saved
with the criticism moved and the log could not be; the file that could not be written holds what
it held, unless the write itself has changed it. -/
theorem review_failure {files : StateFiles} {tree : Tree} (hd : tree.HasDirectory)
    (hapart : files.Apart tree) (today : Date) (verb : Verb) (id : String)
    (reason : Option String) (error : WriteError) (after : Tree) :
    ((review files today verb id reason).exec tree = (.error error, after) →
      (files.worklist.load tree).Moved (files.worklist.load after) id verb.status
          (reviewReasoning verb reason) ∧
        files.preferences.entries after = files.preferences.entries tree) ∧
    ∀ save : Saver, save.IsFaithful →
      (reviewBy save files today verb id reason).exec tree = (.error error, after) →
      ∃ moved, (files.worklist.load tree).Moved moved id verb.status
          (reviewReasoning verb reason) ∧
        ((save files.worklist.path (moved.text ++ "\n")).exec tree = (.error error, after) ∧
            files.preferences.entries after = files.preferences.entries tree ∧
            (after.readText? files.worklist.path = tree.readText? files.worklist.path →
              files.worklist.load after = files.worklist.load tree) ∨
          ∃ between log,
            (save files.worklist.path (moved.text ++ "\n")).exec tree = (.ok (), between) ∧
            (save files.preferences.path log).exec between = (.error error, after) ∧
            files.worklist.load after = moved ∧
            (after.readText? files.preferences.path = tree.readText? files.preferences.path →
              files.preferences.entries after = files.preferences.entries tree)) := by
  constructor
  · intro h
    rw [review_eq_reviewBy] at h
    obtain ⟨moved, names, text, hmoved, hdated, hstore, hcases⟩ := reviewBy_error_cases hd h
    have hnames : tree.fileNames? files.worklist.path = some names :=
      Tree.fileNames?_eq_some.mpr ⟨_, hstore.place⟩
    rcases hcases with hfailed | ⟨between, log, hsaved, hfailed⟩
    · -- a worklist that was read can be saved
      rw [Tree.exec_saveText_of_fileNames? hd hnames] at hfailed
      simp at hfailed
    · have hload := load_of_log_failed isFaithful_saveText hapart hstore hdated hsaved hfailed
      rw [isFaithful_saveText.put hd hnames hsaved] at hfailed
      exact ⟨hload.symm ▸ hmoved, entries_of_saveText_error hd hstore.at? hfailed⟩
  · intro save hsave h
    obtain ⟨moved, names, text, hmoved, hdated, hstore, hcases⟩ := reviewBy_error_cases hd h
    have hnames : tree.fileNames? files.worklist.path = some names :=
      Tree.fileNames?_eq_some.mpr ⟨_, hstore.place⟩
    refine ⟨moved, hmoved, ?_⟩
    rcases hcases with hfailed | ⟨between, log, hsaved, hfailed⟩
    · refine Or.inl ⟨hfailed, entries_congr ?_, WorklistFile.load_congr⟩
      exact hsave.others hd hnames hfailed (hapart.fileNames?_ne hstore)
    · exact Or.inr ⟨between, log, hsaved, hfailed,
        load_of_log_failed hsave hapart hstore hdated hsaved hfailed, entries_congr⟩

/-! ## 5. A failed rejection -/

namespace Sample

/-- The tree with a directory where the log would be. -/
def blocked (worklist : Worklist) : Tree :=
  .flat [("c.json", .file (.text (worklist.text ++ "\n"))), ("p.md", .dir [])]

/-- Saving that one path refuses. -/
def refusing (refused : Path) : Saver := fun path text =>
  if path = refused then throw (.io path "Permission denied (os error 13)")
  else Tree.saveText path text

theorem isFaithful_refusing (refused : Path) : (refusing refused).IsFaithful := by
  intro path text tree _
  rw [refusing]
  by_cases hpath : path = refused
  · rw [if_pos hpath]
    exact Or.inr ⟨_, tree, rfl, fun _ _ => rfl⟩
  · rw [if_neg hpath]
    exact Or.inl rfl

theorem apart_blocked (worklist : Worklist) : files.Apart (blocked worklist) := by
  intro names text names' text' _ hlog
  have hplace : (blocked worklist).place true files.preferences.path =
      .ok (.found ["p.md"] (.dir [])) :=
    Tree.place_flat_node isPlain_preferences (by simp) rfl
  exact absurd (hlog.place.symm.trans hplace) (by simp)

theorem load_blocked {worklist : Worklist} (h : worklist.IsDated) :
    files.worklist.load (blocked worklist) = worklist :=
  WorklistFile.load_of_holds h (Tree.holds_flat isPlain_worklist rfl)

-- The worklist is saved with the rejection, and then the log is not.
theorem exec_reviewBy_reject {save : Saver} {tree between after : Tree} {error : WriteError}
    (hbefore : files.worklist.load tree = proposed)
    (hsaved : (save files.worklist.path ((reviewed .rejected).text ++ "\n")).exec tree =
      (.ok (), between))
    (hbetween : files.worklist.load between = reviewed .rejected)
    (hlog : ∀ log, (save files.preferences.path log).exec between = (.error error, after)) :
    (reviewBy save files day .reject finding.id none).exec tree = (.error error, after) := by
  have hset : (files.worklist.setStatusBy save finding.id Verb.reject.status none).exec tree =
      (.ok true, between) := by
    rw [WorklistFile.setStatusBy, TreeStep.exec_get_bind, hbefore, setStatus?_proposed rfl]
    exact TreeStep.exec_bind_of_ok hsaved
  have hget : (reviewed .rejected).get? finding.id = some rejection := by
    simp [Worklist.get?, reviewed, rejection, Finding.record]
  rw [reviewBy]
  refine (TreeStep.exec_bind_of_ok hset).trans ?_
  rw [if_pos rfl, TreeStep.exec_get_bind, hbetween, hget]
  refine TreeStep.exec_bind_eq_error.mpr (Or.inr ⟨between, between, rfl, ?_⟩)
  exact TreeStep.exec_bind_eq_error.mpr (Or.inl (hlog _))

theorem exec_review_blocked : (review files day .reject finding.id none).exec (blocked proposed) =
    (.error (.io ⟨"p.md"⟩ "Is a directory (os error 21)"), blocked (reviewed .rejected)) := by
  rw [review_eq_reviewBy]
  exact exec_reviewBy_reject (load_blocked isDated_proposed) (exec_save _ (by simp) _)
    (load_blocked (isDated_reviewed .rejected))
    fun log => Tree.exec_saveText_flat_dir isPlain_preferences log rfl

theorem entries_blocked (worklist : Worklist) :
    files.preferences.entries (blocked worklist) = [] := by
  apply StateFiles.entries_eq_nil
  have hplace : (blocked worklist).place true files.preferences.path =
      .ok (.found ["p.md"] (.dir [])) :=
    Tree.place_flat_node isPlain_preferences (by simp) rfl
  simp [Tree.readText?, Tree.content?, Tree.node?, hplace]

/-- A log that cannot be written does not keep the criticism from being rejected. -/
theorem review_not_atomic :
    (review files day .reject finding.id none).exec (blocked proposed) =
        (.error (.io ⟨"p.md"⟩ "Is a directory (os error 21)"), blocked (reviewed .rejected)) ∧
      files.worklist.load (blocked (reviewed .rejected)) ≠
        files.worklist.load (blocked proposed) ∧
      files.preferences.entries (blocked (reviewed .rejected)) = [] := by
  refine ⟨exec_review_blocked, ?_, entries_blocked _⟩
  rw [load_blocked (isDated_reviewed .rejected), load_blocked isDated_proposed]
  simp [reviewed, proposed, Finding.record]

/-- A log that is a directory, and one that may not be written. -/
theorem review_failure_rejected :
    proposed.Moved (reviewed .rejected) finding.id .rejected none ∧
      ∃ moved, (files.worklist.load (storeOnly proposed)).Moved moved finding.id .rejected none ∧
        files.worklist.load (storeOnly (reviewed .rejected)) = moved := by
  have hblocked : (blocked proposed).HasDirectory := Tree.hasDirectory_flat _
  have hstore : (storeOnly proposed).HasDirectory := Tree.hasDirectory_flat _
  have hrefused : (reviewBy (refusing ⟨"p.md"⟩) files day .reject finding.id none).exec
      (storeOnly proposed) = (.error (.io ⟨"p.md"⟩ "Permission denied (os error 13)"),
        storeOnly (reviewed .rejected)) :=
    exec_reviewBy_reject (load_storeOnly isDated_proposed) (exec_save _ (by simp) _)
      (load_storeOnly (isDated_reviewed .rejected)) fun _ => rfl
  constructor
  · obtain ⟨hmoved, -⟩ := (review_failure hblocked (apart_blocked proposed) day .reject finding.id
      none _ _).1 exec_review_blocked
    rwa [load_blocked isDated_proposed, load_blocked (isDated_reviewed .rejected)] at hmoved
  · obtain ⟨moved, hmoved, ⟨hfailed, -⟩ | ⟨between, log, -, -, hload, -⟩⟩ :=
      (review_failure hstore (apart_storeOnly proposed) day .reject finding.id none _ _).2 _
        (isFaithful_refusing ⟨"p.md"⟩) hrefused
    · have hsaved : (refusing ⟨"p.md"⟩ files.worklist.path (moved.text ++ "\n")).exec
          (storeOnly proposed) = (.ok (), _) := exec_save _ (by simp) moved
      rw [hsaved] at hfailed
      simp at hfailed
    · exact ⟨moved, hmoved, hload⟩

end Sample

end Scrutiny
