import Scrutiny.Proofs.Tree.Flat
import Scrutiny.Proofs.Worklist.File

/-!
The file of a worklist is read back as the worklist that was saved, whatever texts it holds, and a
single record is read back from one line.
-/

namespace Scrutiny

/-- The instant lies in a year of four digits, outside leap seconds. -/
def Instant.IsCommon (instant : Instant) : Prop :=
  instant.nanos < 1000000000 ∧ 0 ≤ (Date.ofDayNumber (instant.seconds / 86400)).year ∧
    (Date.ofDayNumber (instant.seconds / 86400)).year ≤ 9999

instance (instant : Instant) : Decidable instant.IsCommon :=
  inferInstanceAs (Decidable (_ ∧ _))

theorem Instant.IsCommon.isValid {instant : Instant} (h : instant.IsCommon) :
    instant.isValid = true := by
  obtain ⟨hnanos, hfirst, hlast⟩ := h
  have hyear : yearInRange (Date.ofDayNumber (instant.seconds / 86400)).year = true := by
    simp only [yearInRange, Bool.and_eq_true, decide_eq_true_eq]
    omega
  simp [Instant.isValid, hyear, hnanos]

/-- A record is read back from its line. -/
theorem Criticism.ofJson?_compact {criticism : Criticism}
    (h : criticism.createdAt.isValid = true) :
    (Json.parse? criticism.toJson.compact).bind ofJson? = some criticism := by
  rw [Json.parse?_compact (isTextual_toJson criticism), Option.bind_some, ofJson?_toJson h]

namespace Worklist

/-- What is saved is read back.  The text of a worklist spells it, and so a file that it was saved
to holds it; a record alone is spelled by its line as well. -/
theorem reads_back :
    (∀ worklist : Worklist, (∀ criticism ∈ worklist.criticisms, criticism.createdAt.IsCommon) →
      (∀ instant ∈ worklist.lastAnalysis, instant.IsCommon) →
      parse? (worklist.text ++ "\n") = some worklist ∧
      ∀ (file : WorklistFile) (tree after : Tree), tree.HasDirectory →
        (file.save worklist).exec tree = (.ok (), after) → file.load after = worklist) ∧
    ∀ criticism : Criticism, criticism.createdAt.IsCommon →
      (Json.parse? criticism.toJson.compact).bind Criticism.ofJson? = some criticism := by
  constructor
  · intro worklist hcreated hlast
    have hdated : worklist.IsDated :=
      ⟨fun criticism hmem => (hcreated criticism hmem).isValid,
        fun instant hmem => (hlast instant hmem).isValid⟩
    exact ⟨parse?_text hdated, fun file tree after hd hsave =>
      WorklistFile.load_of_save hd hdated hsave⟩
  · intro criticism hcreated
    exact Criticism.ofJson?_compact hcreated.isValid

/-- A record whose texts hold quotes, control characters and characters beyond the basic plane,
made one nanosecond before the year 1970. -/
def awkward : Criticism where
  id := ""
  category := .test
  subject := "say \"no\"\\\n"
  description := "\x00\x1f\x7f\u2028𝕊"
  files := [⟨"a/\t.ts"⟩, ⟨""⟩]
  location := some ""
  severity := .high
  status := .skipped
  createdAt := ⟨-1, 999999999⟩
  reasoning := none

theorem reads_back_awkward :
    parse? ((Worklist.mk [awkward, awkward] (some ⟨0, 1000⟩)).text ++ "\n") =
        some ⟨[awkward, awkward], some ⟨0, 1000⟩⟩ ∧
      (∃ after, (WorklistFile.save ⟨⟨"c.json"⟩⟩ ⟨[awkward], none⟩).exec (.flat []) =
          (.ok (), after) ∧ WorklistFile.load ⟨⟨"c.json"⟩⟩ after = ⟨[awkward], none⟩) ∧
      (Json.parse? awkward.toJson.compact).bind Criticism.ofJson? = some awkward := by
  have hcreated : awkward.createdAt.IsCommon := by decide +kernel
  have hlast : Instant.IsCommon ⟨0, 1000⟩ := by decide +kernel
  have hplain : Tree.isPlain "c.json" = true := by decide +kernel
  have hsave : (WorklistFile.save ⟨⟨"c.json"⟩⟩ ⟨[awkward], none⟩).exec (.flat []) = (.ok (), _) :=
    Tree.exec_saveText_flat hplain ((Worklist.mk [awkward] none).text ++ "\n") (by simp)
  refine ⟨(reads_back.1 _ ?_ ?_).1, ⟨_, hsave, ?_⟩, reads_back.2 _ hcreated⟩
  · simpa using hcreated
  · simpa using hlast
  · refine (reads_back.1 _ ?_ ?_).2 ⟨⟨"c.json"⟩⟩ _ _ (Tree.hasDirectory_flat []) hsave
    · simpa using hcreated
    · simp

end Worklist

end Scrutiny
