import Scrutiny.Proofs.Tree.Saving

/-!
Trees whose working directory is their top.  A file there is reached by its name alone, so saving
and reading it come down to the entries of the top.
-/

namespace Scrutiny.Tree

/-- The tree with the given entries at its top, seen from there. -/
def flat (entries : List (String × Node)) : Tree where
  top := .dir entries
  directory := []

theorem hasDirectory_flat (entries : List (String × Node)) : (flat entries).HasDirectory := by
  rw [HasDirectory, flat, Node.view, Node.at?_nil]
  rfl

/-- The name is a path of one step that names no directory. -/
def isPlain (name : String) : Bool :=
  decide (plainSteps name = [.enter name]) && !endsInSlash name && (flaw? ⟨name⟩).isNone &&
    !Path.isAbsolute ⟨name⟩ && decide (name.utf8ByteSize ≤ longestName) &&
      decide (Path.parent? ⟨name⟩ = some ⟨""⟩)

section Plain

variable {name : String} {entries : List (String × Node)}

theorem nodeOn_flat (entries : List (String × Node)) : (flat entries).nodeOn [] = .dir entries :=
  rfl

theorem isPlain_spec (h : isPlain name = true) :
    plainSteps name = [.enter name] ∧ endsInSlash name = false ∧ flaw? ⟨name⟩ = none ∧
      Path.isAbsolute ⟨name⟩ = false ∧ ¬ longestName < name.utf8ByteSize ∧
      Path.parent? ⟨name⟩ = some ⟨""⟩ := by
  simpa [isPlain, and_assoc] using h

theorem place_flat (h : isPlain name = true) :
    (flat entries).place true ⟨name⟩ =
      (flat entries).resolve true mostLinks [] [.enter name] := by
  obtain ⟨hsteps, hend, hflaw, habs, -, -⟩ := isPlain_spec h
  rw [place, placeOf, hflaw]
  simp [stepsOf, hsteps, hend, habs, flat, trailOf]

theorem place_flat_free (h : isPlain name = true) (hfree : entries.lookup name = none) :
    (flat entries).place true ⟨name⟩ = .ok (.free [] name) := by
  obtain ⟨-, -, -, -, hname, -⟩ := isPlain_spec h
  rw [place_flat h]
  exact resolve_enter_free (nodeOn_flat entries) hname hfree

theorem place_flat_node (h : isPlain name = true) {node : Node}
    (hnode : ∀ target, node ≠ .link target) (hlookup : entries.lookup name = some node) :
    (flat entries).place true ⟨name⟩ = .ok (.found [name] node) := by
  obtain ⟨-, -, -, -, hname, -⟩ := isPlain_spec h
  rw [place_flat h, resolve_enter_node (nodeOn_flat entries) hname hlookup hnode, resolve_nil]
  rfl

theorem place_flat_file (h : isPlain name = true) {content : Content}
    (hfile : entries.lookup name = some (.file content)) :
    (flat entries).place true ⟨name⟩ = .ok (.found [name] (.file content)) :=
  place_flat_node h (by simp) hfile

theorem readText?_flat_free (h : isPlain name = true) (hfree : entries.lookup name = none) :
    (flat entries).readText? ⟨name⟩ = none := by
  simp [Tree.readText?, content?, node?, place_flat_free h hfree]

theorem holds_flat (h : isPlain name = true) {text : String}
    (hfile : entries.lookup name = some (.file (.text text))) :
    (flat entries).Holds ⟨name⟩ [name] text :=
  ⟨hasDirectory_flat entries, place_flat_file h hfile⟩

theorem put_flat (entries : List (String × Node)) (node : Node) :
    (flat entries).put [name] node = flat (Node.putEntry name node entries) := by
  simp only [Tree.put, flat, Node.put, List.isEmpty_nil, if_true]
  cases hlookup : entries.lookup name with
  | none => rfl
  | some old => cases old <;> rfl

theorem placeToWrite_flat (h : isPlain name = true) :
    (flat entries).placeToWrite ⟨name⟩ = (flat entries).place true ⟨name⟩ := by
  obtain ⟨hsteps, hend, -, -, -, -⟩ := isPlain_spec h
  rw [placeToWrite, hend, hsteps]

-- A file can be written at the top, if nothing but a file is in its way.
theorem writeText_flat (h : isPlain name = true) (text : String)
    (hslot : ∀ node, entries.lookup name = some node → ∃ content, node = .file content) :
    (flat entries).writeText ⟨name⟩ text =
      .ok (flat (Node.putEntry name (.file (.text text)) entries)) := by
  rw [writeText, writeFile, placeToWrite_flat h, ← put_flat]
  cases hlookup : entries.lookup name with
  | none =>
    rw [place_flat_free h hlookup]
    rfl
  | some node =>
    obtain ⟨content, rfl⟩ := hslot node hlookup
    rw [place_flat_file h hlookup]

-- No directory is above a plain name, so none is made.
theorem exec_saveText_plain (h : isPlain name = true) (text : String) :
    (saveText ⟨name⟩ text).exec (flat entries) =
      match (flat entries).writeText ⟨name⟩ text with
      | .ok tree => (.ok (), tree)
      | .error error => (.error (.io ⟨name⟩ error.message), flat entries) := by
  obtain ⟨-, -, -, -, -, hparent⟩ := isPlain_spec h
  have hdirs : (flat entries).makeDirs ⟨""⟩ = (.ok (), flat entries) := by
    unfold makeDirs makeDirsWithin
    rfl
  cases hwrite : (flat entries).writeText ⟨name⟩ text <;>
    simp [saveText, hparent, TreeStep.exec_bind, hdirs, hwrite]

/-- Saving a file at the top makes no directory, and puts the file's entry there. -/
theorem exec_saveText_flat (h : isPlain name = true) (text : String)
    (hslot : ∀ node, entries.lookup name = some node → ∃ content, node = .file content) :
    (saveText ⟨name⟩ text).exec (flat entries) =
      (.ok (), flat (Node.putEntry name (.file (.text text)) entries)) := by
  rw [exec_saveText_plain h, writeText_flat h text hslot]

theorem exec_saveText_flat_dir (h : isPlain name = true) (text : String)
    {inner : List (String × Node)} (hdir : entries.lookup name = some (.dir inner)) :
    (saveText ⟨name⟩ text).exec (flat entries) =
      (.error (.io ⟨name⟩ OsError.isDirectory.message), flat entries) := by
  have hwrite : (flat entries).writeText ⟨name⟩ text = .error .isDirectory := by
    rw [writeText, writeFile, placeToWrite_flat h, place_flat_node h (by simp) hdir]
  rw [exec_saveText_plain h, hwrite]

end Plain

end Scrutiny.Tree
