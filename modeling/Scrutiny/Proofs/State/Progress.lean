import Scrutiny.Analysis.Run
import Scrutiny.Proofs.Preference.File
import Scrutiny.Proofs.Worklist.File

/-!
What operations do to a project's state.  Each of them saves the worklist, or the preference log,
or both.  As long as these are different files, the worklist has a history and the log only grows.
-/

namespace Scrutiny

/-! ## 1. Two files -/

/-- Every file that is held is held afterwards. -/
def Tree.KeepsFiles (tree after : Tree) : Prop :=
  ∀ path names text, tree.Holds path names text → ∃ text', after.Holds path names text'

theorem Tree.Saved.keepsFiles {tree after : Tree} {path : Path} {target : List String}
    {text : String} (h : tree.Saved after path target text) : tree.KeepsFiles after :=
  fun _ _ _ hold => ⟨_, h.frame hold⟩

namespace StateFiles

variable {files : StateFiles} {tree after : Tree}

/-- The worklist and the preference log do not lie in the same file. -/
def Apart (files : StateFiles) (tree : Tree) : Prop :=
  ∀ names text names' text', tree.Holds files.worklist.path names text →
    tree.Holds files.preferences.path names' text' → names' ≠ names

theorem Apart.of_keepsFiles (h : files.Apart after) (hkeeps : tree.KeepsFiles after) :
    files.Apart tree := by
  intro names text names' text' hstore hlog
  obtain ⟨_, hstore'⟩ := hkeeps _ _ _ hstore
  obtain ⟨_, hlog'⟩ := hkeeps _ _ _ hlog
  exact h names _ names' _ hstore' hlog'

/-- The worklist has a history, and the entries of the log are still there in their order. -/
structure Progress (files : StateFiles) (tree after : Tree) : Prop where
  records : (files.worklist.load tree).IsSound → (files.worklist.load after).IsSound ∧
    (files.worklist.load tree).Extends (files.worklist.load after)
  log : (files.preferences.entries tree).Sublist (files.preferences.entries after)

theorem Progress.refl (files : StateFiles) (tree : Tree) : files.Progress tree tree :=
  ⟨fun hsound => ⟨hsound, .refl _⟩, .refl _⟩

theorem Progress.trans {between : Tree} (h : files.Progress tree between)
    (h' : files.Progress between after) : files.Progress tree after := by
  refine ⟨fun hsound => ?_, h.log.trans h'.log⟩
  obtain ⟨hbetween, hextends⟩ := h.records hsound
  obtain ⟨hafter, hextends'⟩ := h'.records hbetween
  exact ⟨hafter, hextends.trans hextends'⟩

/-- What a step that saves does to a tree. -/
structure Advance (files : StateFiles) (tree after : Tree) : Prop where
  directory : after.HasDirectory
  keeps : tree.KeepsFiles after
  progress : files.Apart after → files.Progress tree after

theorem Advance.refl (files : StateFiles) (hd : tree.HasDirectory) : files.Advance tree tree :=
  ⟨hd, fun _ _ text h => ⟨text, h⟩, fun _ => .refl files tree⟩

theorem Advance.trans {between : Tree} (h : files.Advance tree between)
    (h' : files.Advance between after) : files.Advance tree after := by
  refine ⟨h'.directory, fun path names text hold => ?_, fun hapart => ?_⟩
  · obtain ⟨text', hold'⟩ := h.keeps path names text hold
    exact h'.keeps path names text' hold'
  · exact (h.progress (hapart.of_keepsFiles h'.keeps)).trans (h'.progress hapart)

/-! ## 2. One file saved -/

theorem entries_eq_nil (h : tree.readText? files.preferences.path = none) :
    files.preferences.entries tree = [] := by
  rw [PreferenceFile.entries, PreferenceFile.load, h]
  rfl

/-- Saving the worklist leaves the log as it is. -/
theorem advance_of_save (hd : tree.HasDirectory) {worklist : Worklist}
    (hworklist : (files.worklist.load tree).IsSound → worklist.IsSound ∧
      (files.worklist.load tree).Extends worklist)
    (h : (files.worklist.save worklist).exec tree = (.ok (), after)) :
    files.Advance tree after := by
  obtain ⟨target, hsaved⟩ := Tree.saved_of_saveText hd h
  refine ⟨hsaved.holds.directory, hsaved.keepsFiles, fun hapart => ⟨fun hsound => ?_, ?_⟩⟩
  · obtain ⟨hafter, hextends⟩ := hworklist hsound
    rw [WorklistFile.load_of_holds hafter.dated hsaved.holds]
    exact ⟨hafter, hextends⟩
  · -- a log that could not be read held no entries
    cases hread : tree.readText? files.preferences.path with
    | none =>
      rw [entries_eq_nil hread]
      exact List.nil_sublist _
    | some text =>
      obtain ⟨names, hlog⟩ := Tree.holds_of_readText? hd hread
      have hlog' := hsaved.frame hlog
      rw [if_neg (hapart _ _ _ _ hsaved.holds hlog')] at hlog'
      rw [PreferenceFile.entries_of_holds hlog, PreferenceFile.entries_of_holds hlog']

-- Adding an entry to the log leaves a worklist that was read from another file.
theorem Apart.load_of_addEntry (hapart : files.Apart after) {names : List String} {text : String}
    (hstore : tree.Holds files.worklist.path names text) {entry : PreferenceEntry}
    (h : (files.preferences.add entry).exec tree = (.ok (), after)) :
    files.worklist.load after = files.worklist.load tree := by
  obtain ⟨target, hsaved⟩ := PreferenceFile.saved_of_add hstore.directory h
  have hstore' := hsaved.frame hstore
  rw [if_neg (hapart _ _ _ _ hstore' hsaved.holds).symm] at hstore'
  apply WorklistFile.load_congr
  rw [hstore.readText?, hstore'.readText?]

/-- Adding an entry to the log leaves a worklist that could be read as it is. -/
theorem advance_of_addEntry {names : List String} {text : String}
    (hstore : tree.Holds files.worklist.path names text) {entry : PreferenceEntry}
    (h : (files.preferences.add entry).exec tree = (.ok (), after)) :
    files.Advance tree after := by
  obtain ⟨target, hsaved⟩ := PreferenceFile.saved_of_add hstore.directory h
  refine ⟨hsaved.holds.directory, hsaved.keepsFiles, fun hapart => ⟨fun hsound => ?_, ?_⟩⟩
  · rw [hapart.load_of_addEntry hstore h]
    exact ⟨hsound, .refl _⟩
  · obtain ⟨front, back, hbefore, hafter⟩ := PreferenceFile.entries_of_add hstore.directory h
    rw [hbefore, hafter]
    exact (List.sublist_append_right _ back).append_left front

end StateFiles

end Scrutiny
