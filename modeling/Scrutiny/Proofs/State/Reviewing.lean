import Scrutiny.Proofs.State.Failure
import Scrutiny.Proofs.Worklist.Merging

/-!
What a review does, if the files can be written.  It moves the first record with the identity, if
there is one, and writes one bullet into the section of its decision; all else in both files is left
as it was.
-/

namespace Scrutiny

/-! ## 1. Records under review -/

/-- The record as a review leaves it. -/
def Criticism.reviewed (record : Criticism) (verb : Verb) (reason : Option String) : Criticism :=
  { record with
    status := verb.status
    reasoning := (reviewReasoning verb reason).orElse fun _ => record.reasoning }

-- No review moves a record to pending, so each may go where the review moves it.
theorem Worklist.exists_setStatus? {worklist : Worklist} {id : String} {record : Criticism}
    (h : worklist.get? id = some record) (verb : Verb) (reason : Option String) :
    ∃ moved, worklist.setStatus? id verb.status (reviewReasoning verb reason) = some moved ∧
      moved.get? id = some (record.reviewed verb reason) := by
  have hrecord : record.setStatus? verb.status (reviewReasoning verb reason) =
      some (record.reviewed verb reason) := if_pos (by cases verb <;> rfl)
  have hset : worklist.setStatus? id verb.status (reviewReasoning verb reason) =
      some { worklist with
        criticisms := changeFirst (fun old => old.id == id)
          (fun _ => record.reviewed verb reason) worklist.criticisms } := by
    rw [setStatus?, h]
    show (record.setStatus? _ _).bind _ = _
    rw [hrecord]
    rfl
  have hid := List.find?_some h
  exact ⟨_, hset, find?_changeFirst h hid⟩

/-! ## 2. Runs of a review -/

section Runs

variable {files : StateFiles} {tree between after : Tree} {verb : Verb} {id : String}
  {reason : Option String}

/-- A review of what is not on record writes nothing. -/
theorem exec_review_missing (h : (files.worklist.load tree).get? id = none) (today : Date)
    (verb : Verb) (reason : Option String) :
    (review files today verb id reason).exec tree = (.ok .notFound, tree) := by
  have hset : (files.worklist.setStatus id verb.status (reviewReasoning verb reason)).exec tree =
      (.ok false, tree) := by
    rw [WorklistFile.setStatus, TreeStep.exec_get_bind, Worklist.setStatus?, h]
    rfl
  rw [review]
  refine (TreeStep.exec_bind_of_ok hset).trans ?_
  rw [if_neg Bool.false_ne_true, TreeStep.exec_get_bind, Worklist.contains, h]
  rfl

-- Otherwise the worklist is saved with the record moved, and then the decision is noted.
theorem exec_review_found {moved : Worklist} {criticism : Criticism}
    (hset : (files.worklist.load tree).setStatus? id verb.status (reviewReasoning verb reason) =
      some moved)
    (hsave : (files.worklist.save moved).exec tree = (.ok (), between))
    (hload : files.worklist.load between = moved) (hget : moved.get? id = some criticism)
    (today : Date) (hnote : ∀ decision, verb.decision? = some decision →
      (files.preferences.add (criticism.entry today decision (reviewReasoning verb reason))).exec
        between = (.ok (), after))
    (hskip : verb.decision? = none → after = between) :
    (review files today verb id reason).exec tree = (.ok (.updated criticism), after) := by
  have hmoved : (files.worklist.setStatus id verb.status (reviewReasoning verb reason)).exec tree =
      (.ok true, between) := by
    rw [WorklistFile.setStatus, TreeStep.exec_get_bind, hset]
    exact TreeStep.exec_bind_of_ok hsave
  rw [review]
  refine (TreeStep.exec_bind_of_ok hmoved).trans ?_
  rw [if_pos rfl, TreeStep.exec_get_bind, hload, hget]
  cases hdecision : verb.decision? with
  | none =>
    rw [hskip hdecision]
    rfl
  | some decision => exact TreeStep.exec_bind_of_ok (hnote decision hdecision)

end Runs

/-! ## 3. Both files -/

/-- The log can be saved after the worklist, and lies in another file then. -/
def StateFiles.Writable (files : StateFiles) (tree : Tree) : Prop :=
  ∀ store between, (Tree.saveText files.worklist.path store).exec tree = (.ok (), between) →
    ∀ log, ∃ after, (Tree.saveText files.preferences.path log).exec between = (.ok (), after) ∧
      files.Apart after

/-- The log has one line more, the bullet of an entry, in the section of its decision. -/
def PreferenceFile.Gains (file : PreferenceFile) (tree after : Tree) (entry : PreferenceEntry) :
    Prop :=
  ∃ text, after.readText? file.path = some text ∧
    PreferenceLog.Gains (file.load tree).toList text.toList entry.decision entry.bullet.toList

theorem PreferenceFile.gains_of_add {file : PreferenceFile} {tree after : Tree}
    {entry : PreferenceEntry} (hd : tree.HasDirectory)
    (h : (file.add entry).exec tree = (.ok (), after)) : file.Gains tree after entry := by
  obtain ⟨target, hsaved⟩ := PreferenceFile.saved_of_add hd h
  exact ⟨_, hsaved.holds.readText?, PreferenceLog.gains_insert _ _⟩

-- A worklist that was read from a file can be saved, and the log stays what it was.
theorem StateFiles.Apart.exists_save {files : StateFiles} {tree : Tree} (hapart : files.Apart tree)
    {names : List String} {text : String} (hstore : tree.Holds files.worklist.path names text)
    {worklist : Worklist} (hdated : worklist.IsDated) :
    ∃ between, (files.worklist.save worklist).exec tree = (.ok (), between) ∧
      files.worklist.load between = worklist ∧
      (∃ target text, between.Holds files.worklist.path target text) ∧
      between.content? files.preferences.path = tree.content? files.preferences.path := by
  have hnames : tree.fileNames? files.worklist.path = some names :=
    Tree.fileNames?_eq_some.mpr ⟨_, hstore.place⟩
  have hsave : (files.worklist.save worklist).exec tree = (.ok (), _) :=
    Tree.exec_saveText_of_fileNames? hstore.directory hnames (worklist.text ++ "\n")
  obtain ⟨target, hsaved⟩ := Tree.saved_of_saveText hstore.directory hsave
  exact ⟨_, hsave, WorklistFile.load_of_save hstore.directory hdated hsave,
    ⟨target, _, hsaved.holds⟩,
    Tree.content?_put hstore.directory hstore.at? _ (hapart.fileNames?_ne hstore)⟩

/-- A review is exact, if the worklist and the log are different files and a decision can be
written.  Without a record of the identity it writes nothing.  With one it moves the first such
record to its state, and gives it the reason unless that is blank; it tells of the record as it is
stored then.  Accepting and rejecting write one bullet about the record into the section of the
decision, and skipping leaves the log alone. -/
theorem review_exact {files : StateFiles} {tree : Tree} (hd : tree.HasDirectory)
    (hapart : files.Apart tree) (today : Date) (verb : Verb) (id : String) (reason : Option String)
    (hwritable : ∀ decision, verb.decision? = some decision → files.Writable tree) :
    ((files.worklist.load tree).get? id = none →
      (review files today verb id reason).exec tree = (.ok .notFound, tree)) ∧
    ∀ record, (files.worklist.load tree).get? id = some record →
      ∃ after, (review files today verb id reason).exec tree =
          (.ok (.updated (record.reviewed verb reason)), after) ∧
        (files.worklist.load tree).Moved (files.worklist.load after) id verb.status
          (reviewReasoning verb reason) ∧
        (files.worklist.load after).get? id = some (record.reviewed verb reason) ∧
        (∀ decision, verb.decision? = some decision → files.preferences.Gains tree after
          (record.entry today decision (reviewReasoning verb reason))) ∧
        (verb.decision? = none →
          after.content? files.preferences.path = tree.content? files.preferences.path) := by
  refine ⟨fun hmissing => exec_review_missing hmissing today verb reason, fun record hrecord => ?_⟩
  obtain ⟨moved, hset, hget⟩ := Worklist.exists_setStatus? hrecord verb reason
  have hmoved := Worklist.moved_of_setStatus? hset
  have hdated := hmoved.isDated (WorklistFile.isDated_load _ _)
  obtain ⟨names, text, hstore⟩ := exists_holds_of_setStatus? hd hset
  obtain ⟨between, hsave, hload, ⟨target, _, hbetween⟩, hlog⟩ := hapart.exists_save hstore hdated
  cases hdecision : verb.decision? with
  | none =>
    refine ⟨between, ?_, hload.symm ▸ hmoved, hload.symm ▸ hget, by simp, fun _ => hlog⟩
    exact exec_review_found hset hsave hload hget today (by simp [hdecision]) fun _ => rfl
  | some decision =>
    have hloadLog : files.preferences.load between = files.preferences.load tree := by
      rw [PreferenceFile.load, PreferenceFile.load, Tree.readText?, Tree.readText?, hlog]
    obtain ⟨after, hsaveLog, hapart⟩ := hwritable decision hdecision _ _ hsave
      (PreferenceLog.insert (files.preferences.load between)
        (record.entry today decision (reviewReasoning verb reason)))
    have hadd : (files.preferences.add (record.entry today decision
        (reviewReasoning verb reason))).exec between = (.ok (), after) := by
      rw [PreferenceFile.add, TreeStep.exec_get_bind, hsaveLog]
    have hafter : files.worklist.load after = moved :=
      (hapart.load_of_addEntry hbetween hadd).trans hload
    refine ⟨after, ?_, hafter.symm ▸ hmoved, hafter.symm ▸ hget, ?_, by simp⟩
    · refine exec_review_found hset hsave hload hget today ?_ (by simp [hdecision])
      intro other hother
      obtain rfl := Option.some.inj (hdecision.symm.trans hother)
      exact hadd
    · intro other hother
      obtain rfl := Option.some.inj hother
      obtain ⟨log, hread, hgains⟩ := PreferenceFile.gains_of_add hbetween.directory hadd
      rw [hloadLog] at hgains
      exact ⟨log, hread, hgains⟩

/-! ## 4. One review -/

namespace Sample

theorem writable_storeOnly (worklist : Worklist) : files.Writable (storeOnly worklist) := by
  intro store between hsave log
  have hstore : (Tree.saveText files.worklist.path store).exec (storeOnly worklist) =
      (.ok (), .flat [("c.json", .file (.text store))]) :=
    Tree.exec_saveText_flat isPlain_worklist _ (by simp)
  obtain rfl := (Prod.mk.inj (hstore.symm.trans hsave)).2
  refine ⟨_, Tree.exec_saveText_flat isPlain_preferences log fun node hnode => ?_,
    apart_flat store log⟩
  have hnone : List.lookup "p.md" [("c.json", Node.file (.text store))] = none := rfl
  exact nomatch hnode.symm.trans hnone

theorem review_exact_rejected : files.Writable (storeOnly proposed) ∧
    ∃ after, (review files day .reject finding.id none).exec (storeOnly proposed) =
        (.ok (.updated rejection), after) ∧
      (files.worklist.load after).get? finding.id = some rejection ∧
      files.preferences.Gains (storeOnly proposed) after
        ((finding.record epoch).entry day .rejected none) := by
  have hwritable := writable_storeOnly proposed
  have hrecord : (files.worklist.load (storeOnly proposed)).get? finding.id =
      some (finding.record epoch) := by
    rw [load_storeOnly isDated_proposed]
    simp [Worklist.get?, proposed, Finding.record]
  obtain ⟨after, hexec, -, hget, hgains, -⟩ :=
    (review_exact (Tree.hasDirectory_flat _) (apart_storeOnly proposed) day .reject finding.id none
      fun _ _ => hwritable).2 _ hrecord
  exact ⟨hwritable, after, hexec, hget, hgains .rejected rfl⟩

end Sample

end Scrutiny
