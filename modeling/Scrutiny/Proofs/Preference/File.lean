import Scrutiny.Proofs.Preference.RoundTrip
import Scrutiny.Proofs.Tree.Flat

/-!
The file of a preference log.  Adding an entry keeps all entries that the file held, in their
order, and adds the new one between them.
-/

open Scrutiny.Text

namespace Scrutiny.PreferenceFile

variable {file : PreferenceFile} {tree after : Tree}

theorem load_of_holds {names : List String} {text : String}
    (h : tree.Holds file.path names text) : file.load tree = text := by
  rw [load, h.readText?]
  rfl

theorem entries_of_holds {names : List String} {text : String}
    (h : tree.Holds file.path names text) : file.entries tree = PreferenceLog.entries text := by
  rw [entries, load_of_holds h]

-- Adding an entry saves the log with the entry inserted.
theorem saved_of_add (hd : tree.HasDirectory) {entry : PreferenceEntry}
    (h : (file.add entry).exec tree = (.ok (), after)) :
    ∃ target, tree.Saved after file.path target (PreferenceLog.insert (file.load tree) entry) := by
  rw [add, TreeStep.exec_get_bind] at h
  exact Tree.saved_of_saveText hd h

/-- What the log holds after adding: what it held, and what the entry's bullet is read as. -/
theorem entries_of_add (hd : tree.HasDirectory) {entry : PreferenceEntry}
    (h : (file.add entry).exec tree = (.ok (), after)) :
    ∃ front back, file.entries tree = front ++ back ∧
      file.entries after = front ++
        ((PreferenceEntry.ofBullet? entry.decision (trimEnd entry.bullet.toList)).toList ++
          back) := by
  obtain ⟨target, hsaved⟩ := saved_of_add hd h
  rw [entries_of_holds hsaved.holds]
  exact PreferenceLog.entries_insert (file.load tree) entry

/-- The log is append-only.  What it held is held afterwards in the same order, with at most one
entry between it; and a day with a year of four digits and a place that can be seen make sure that
the new entry is there. -/
theorem entries_add (hd : tree.HasDirectory) {entry : PreferenceEntry}
    (h : (file.add entry).exec tree = (.ok (), after)) :
    ∃ front added back, file.entries tree = front ++ back ∧
      file.entries after = front ++ added ++ back ∧ added.length ≤ 1 ∧
      (entry.date.isValid = true → 0 ≤ entry.date.year ∧ entry.date.year ≤ 9999 →
        isBlankText entry.location.toList = false →
        ∃ new, added = [new] ∧ new.date = entry.date ∧ new.category = entry.category ∧
          new.decision = entry.decision ∧
          new.subject = PreferenceEntry.sanitize entry.subject) := by
  obtain ⟨front, back, hbefore, hafter⟩ := entries_of_add hd h
  refine ⟨front, (PreferenceEntry.ofBullet? entry.decision (trimEnd entry.bullet.toList)).toList,
    back, hbefore, ?_, ?_, ?_⟩
  · rw [hafter, List.append_assoc]
  · exact Option.length_toList_le
  · intro hvalid hyear hplace
    obtain ⟨new, hread, hnew⟩ := PreferenceLog.ofBullet?_bullet hvalid hyear hplace
    exact ⟨new, by rw [hread]; rfl, hnew⟩

-- Adding an entry to a log beside no other file.
theorem exec_add_flat (text : String) (entry : PreferenceEntry) :
    (PreferenceFile.add ⟨⟨"p.md"⟩⟩ entry).exec (.flat [("p.md", .file (.text text))]) =
      (.ok (), .flat [("p.md", .file (.text (PreferenceLog.insert text entry)))]) := by
  have hplain : Tree.isPlain "p.md" = true := by decide +kernel
  have hload : PreferenceFile.load ⟨⟨"p.md"⟩⟩ (.flat [("p.md", .file (.text text))]) = text :=
    load_of_holds (Tree.holds_flat hplain rfl)
  rw [add, TreeStep.exec_get_bind, hload]
  exact Tree.exec_saveText_flat hplain _ (by simp)

/-- A log with a heading between a section's header and its bullet. -/
def oldLog : String :=
  "## Rejected\n\n### Old\n- 2024-01-01: TEST `t` in a\n"

theorem entries_add_flat :
    ∃ front new back, PreferenceLog.entries oldLog = front ++ back ∧
      PreferenceLog.entries (PreferenceLog.insert oldLog PreferenceLog.tricky) =
        front ++ new :: back ∧
      new.subject = PreferenceEntry.sanitize PreferenceLog.tricky.subject := by
  obtain ⟨front, added, back, hbefore, hafter, -, hadded⟩ :=
    entries_add (Tree.hasDirectory_flat _) (exec_add_flat oldLog PreferenceLog.tricky)
  obtain ⟨new, rfl, -, -, -, hsubject⟩ := hadded (by decide) (by decide) (by decide)
  rw [entries_of_holds (Tree.holds_flat (by decide +kernel) rfl)] at hbefore hafter
  exact ⟨front, new, back, hbefore, by rw [hafter, List.append_assoc]; rfl, hsubject⟩

end Scrutiny.PreferenceFile
