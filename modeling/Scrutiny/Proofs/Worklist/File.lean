import Scrutiny.Proofs.Tree.Resaving
import Scrutiny.Proofs.Worklist.History

/-!
The file of a worklist.  What is saved is what is loaded next.
-/

namespace Scrutiny.WorklistFile

variable {file : WorklistFile} {tree after : Tree}

theorem isDated_load (file : WorklistFile) (tree : Tree) : (file.load tree).IsDated := by
  rw [load]
  cases h : (tree.readText? file.path).bind Worklist.parse? with
  | none => exact Worklist.isDated_empty
  | some worklist =>
    obtain ⟨text, -, hparse⟩ := Option.bind_eq_some_iff.mp h
    exact Worklist.isDated_of_parse? hparse

theorem load_congr (h : after.readText? file.path = tree.readText? file.path) :
    file.load after = file.load tree := by
  rw [load, load, h]

theorem load_of_readText? {worklist : Worklist} (hdated : worklist.IsDated)
    (h : tree.readText? file.path = some (worklist.text ++ "\n")) : file.load tree = worklist := by
  rw [load, h, Option.bind_some, Worklist.parse?_text hdated]
  rfl

theorem load_of_holds {names : List String} {worklist : Worklist} (hdated : worklist.IsDated)
    (h : tree.Holds file.path names (worklist.text ++ "\n")) : file.load tree = worklist :=
  load_of_readText? hdated h.readText?

-- A file that cannot be read holds the empty worklist.
theorem load_of_missing (h : tree.readText? file.path = none) : file.load tree = .empty := by
  rw [load, h]
  rfl

theorem readText?_of_save (hd : tree.HasDirectory) {worklist : Worklist}
    (h : (file.save worklist).exec tree = (.ok (), after)) :
    after.readText? file.path = some (worklist.text ++ "\n") := by
  obtain ⟨target, hsaved⟩ := Tree.saved_of_saveText hd h
  exact hsaved.holds.readText?

theorem load_of_save (hd : tree.HasDirectory) {worklist : Worklist} (hdated : worklist.IsDated)
    (h : (file.save worklist).exec tree = (.ok (), after)) : file.load after = worklist :=
  load_of_readText? hdated (readText?_of_save hd h)

theorem exec_add_nil : (file.add []).exec tree = (.ok 0, tree) := rfl

/-- To add criticisms is to save the worklist with them. -/
theorem exec_add_of_ne_nil {criticisms : List Criticism} (hne : criticisms ≠ [])
    {result : Except WriteError Unit}
    (h : (file.save ((file.load tree).insertAll criticisms)).exec tree = (result, after)) :
    (file.add criticisms).exec tree =
      (result.map fun _ => (file.load tree).countNew criticisms, after) := by
  rw [add, TreeStep.exec_get_bind, if_pos (by simpa using hne), TreeStep.exec_bind, h]
  cases result <;> rfl

theorem exec_add {criticisms : List Criticism} {count : Nat}
    (h : (file.add criticisms).exec tree = (.ok count, after)) :
    count = (file.load tree).countNew criticisms ∧
      (criticisms = [] ∧ after = tree ∨
        (file.save ((file.load tree).insertAll criticisms)).exec tree = (.ok (), after)) := by
  rw [add, TreeStep.exec_get_bind] at h
  cases criticisms with
  | nil =>
    obtain ⟨rfl, rfl⟩ := TreeStep.exec_pure_eq_ok.mp h
    exact ⟨rfl, Or.inl ⟨rfl, rfl⟩⟩
  | cons criticism criticisms =>
    obtain ⟨_, between, hsave, hpure⟩ := TreeStep.exec_bind_eq_ok.mp h
    obtain ⟨rfl, rfl⟩ := TreeStep.exec_pure_eq_ok.mp hpure
    exact ⟨rfl, Or.inr hsave⟩

theorem exec_stamp (now : Instant) :
    (file.stamp now).exec tree = (file.save ((file.load tree).stamp now)).exec tree :=
  TreeStep.exec_get_bind _ tree

theorem load_of_add (hd : tree.HasDirectory) {criticisms : List Criticism} {count : Nat}
    (hvalid : ∀ criticism ∈ criticisms, criticism.createdAt.isValid = true)
    (h : (file.add criticisms).exec tree = (.ok count, after)) :
    file.load after = (file.load tree).insertAll criticisms := by
  rcases (exec_add h).2 with ⟨rfl, rfl⟩ | hsave
  · rfl
  · exact load_of_save hd (Worklist.isDated_insertAll (isDated_load file tree) hvalid) hsave

/-! ## Where the file is -/

theorem exec_save_of_fileNames? (hd : tree.HasDirectory) {names : List String}
    (hnames : tree.fileNames? file.path = some names) {worklist : Worklist}
    (hdated : worklist.IsDated) :
    ∃ after, (file.save worklist).exec tree = (.ok (), after) ∧ after.HasDirectory ∧
      after.fileNames? file.path = some names ∧ file.load after = worklist := by
  have hsave := Tree.exec_saveText_of_fileNames? hd hnames (worklist.text ++ "\n")
  obtain ⟨target, hsaved⟩ := Tree.saved_of_saveText hd hsave
  refine ⟨_, hsave, hsaved.holds.directory, ?_, load_of_holds hdated hsaved.holds⟩
  obtain ⟨old, hplace⟩ := Tree.fileNames?_eq_some.mp hnames
  rwa [Tree.fileNames?_put hd (Tree.isIn_of_place hd hplace)]

theorem exec_add_of_fileNames? (hd : tree.HasDirectory) {names : List String}
    (hnames : tree.fileNames? file.path = some names) {criticisms : List Criticism}
    (hvalid : ∀ criticism ∈ criticisms, criticism.createdAt.isValid = true) :
    ∃ after, (file.add criticisms).exec tree = (.ok ((file.load tree).countNew criticisms), after) ∧
      after.HasDirectory ∧ after.fileNames? file.path = some names ∧
        file.load after = (file.load tree).insertAll criticisms := by
  by_cases hne : criticisms = []
  · subst hne
    exact ⟨tree, exec_add_nil, hd, hnames, rfl⟩
  · obtain ⟨after, hsave, hafter⟩ := exec_save_of_fileNames? hd hnames
      (Worklist.isDated_insertAll (isDated_load file tree) hvalid)
    exact ⟨after, exec_add_of_ne_nil hne hsave, hafter⟩

end Scrutiny.WorklistFile
