import Scrutiny.Proofs.Preference.Log

/-!
Writer and reader of bullets agree: a section with one bullet in it is read as the entry that the
bullet was written from, with its texts on one line.
-/

open Scrutiny.Text

namespace Scrutiny.PreferenceLog

/-- A section with the bullet of one entry. -/
def singleton (entry : PreferenceEntry) : String :=
  entry.decision.header ++ "\n" ++ entry.bullet ++ "\n"

/-- An entry as its bullet says it.  Blanks at the end of a line are not read, so a place loses
them if nothing follows it. -/
def written (entry : PreferenceEntry) : PreferenceEntry :=
  { entry with
    subject := PreferenceEntry.sanitize entry.subject
    location :=
      if entry.writtenReasoning.isSome then mapChars oneLine entry.location
      else mapChars (fun text => trimEnd (oneLine text)) entry.location
    reasoning := entry.writtenReasoning.map (mapChars oneLine) }

theorem entries_singleton (entry : PreferenceEntry) :
    entries (singleton entry) =
      (PreferenceEntry.ofBullet? entry.decision (trimEnd entry.bullet.toList)).toList := by
  have hrows : ∀ row ∈ [entry.decision.header.toList, entry.bullet.toList], '\n' ∉ row := by
    simp [newline_not_mem_header, newline_not_mem_bullet]
  have hchars : (singleton entry).toList =
      unlines [entry.decision.header.toList, entry.bullet.toList] := by
    simp [singleton, unlines, List.intercalate]
  rw [entries, hchars, entriesOfLines_unlines none (by simp) hrows,
    entriesOfLines_pair _ _ (isHeader_bullet entry)]

-- What follows a place that holds no mark is the reasoning that was written.
theorem placeAndReason?_tail {entry : PreferenceEntry}
    (hplace : isBlankText entry.location.toList = false)
    (hmark : ¬ PreferenceEntry.reasoningMark <:+: oneLine entry.location.toList) :
    PreferenceEntry.placeAndReason? (trimEnd entry.tail) =
      some ((written entry).location.toList, (written entry).reasoning.map String.toList) := by
  have hblank : isBlankText (oneLine entry.location.toList) = false := by
    rw [isBlankText_oneLine, hplace]
  unfold PreferenceEntry.tail written PreferenceEntry.place
  cases entry.writtenReasoning with
  | none =>
    -- a trimmed place is a part of the place
    have hpart : trimEnd (oneLine entry.location.toList) <+: oneLine entry.location.toList := by
      obtain ⟨blanks, -, heq⟩ := exists_trimEnd_append (oneLine entry.location.toList)
      exact ⟨blanks, heq.symm⟩
    have hne : trimEnd (oneLine entry.location.toList) ≠ [] := by
      rw [ne_eq, trimEnd_eq_nil, hblank]
      exact Bool.false_ne_true
    rw [PreferenceEntry.placeAndReason?_of_not_infix hne fun h => hmark (h.trans hpart.isInfix)]
    simp [mapChars]
  | some text =>
    have hne : oneLine entry.location.toList ≠ [] := by
      rintro hnil
      rw [hnil] at hblank
      exact absurd hblank (by simp [isBlankText])
    have hquote : trimEnd (oneLine entry.location.toList ++
        (PreferenceEntry.reasoningMark ++ (oneLine text.toList ++ ['"']))) =
        oneLine entry.location.toList ++
          (PreferenceEntry.reasoningMark ++ (oneLine text.toList ++ ['"'])) := by
      rw [← List.append_assoc, ← List.append_assoc, trimEnd_concat, if_neg (by decide)]
    dsimp only
    rw [hquote, PreferenceEntry.placeAndReason?_append_mark hne hmark]
    simp [mapChars]

/-- A section with one bullet is read as the entry of the bullet, unless the place of the entry
holds what stands before a reasoning. -/
theorem entries_singleton_eq_written {entry : PreferenceEntry}
    (hvalid : entry.date.isValid = true)
    (hyear : 0 ≤ entry.date.year ∧ entry.date.year ≤ 9999)
    (hplace : isBlankText entry.location.toList = false)
    (hmark : ¬ PreferenceEntry.reasoningMark <:+: oneLine entry.location.toList) :
    entries (singleton entry) = [written entry] := by
  rw [entries_singleton, trimEnd_bullet hplace, PreferenceEntry.ofBullet?_lead hvalid hyear,
    placeAndReason?_tail hplace hmark]
  simp [written, Function.comp_def]

/-- An entry whose subject, place and reasoning all need care. -/
def tricky : PreferenceEntry where
  date := ⟨2024, 2, 29⟩
  category := .simplify
  subject := "use `x` in - \"y\"\nz"
  location := "a` in b - c\r\n"
  reasoning := some "not - \"now\"\n"
  decision := .rejected

theorem entries_singleton_tricky : entries (singleton tricky) = [written tricky] :=
  entries_singleton_eq_written (by decide) (by decide) (by decide) (by decide +kernel)

/-- An entry whose place has what stands before a reasoning on two lines. -/
def folded : PreferenceEntry where
  date := ⟨2026, 10, 17⟩
  category := .elim
  subject := "s"
  location := "a\n- \"b\""
  reasoning := none
  decision := .rejected

/-- It does not suffice that the place as it was given holds no mark: on one line it may, and its
end is then read as a reasoning. -/
theorem entries_singleton_ne_written : ¬ ∀ entry : PreferenceEntry,
    entry.date.isValid = true → 0 ≤ entry.date.year ∧ entry.date.year ≤ 9999 →
    isBlankText entry.location.toList = false →
    ¬ PreferenceEntry.reasoningMark <:+: entry.location.toList →
    entries (singleton entry) = [written entry] := by
  intro h
  have hfolded := h folded (by decide) (by decide) (by decide) (by decide +kernel)
  have hsplit : PreferenceEntry.placeAndReason? (trimEnd folded.tail) =
      some (['a'], some ['b']) := by decide +kernel
  rw [entries_singleton, trimEnd_bullet (by decide),
    PreferenceEntry.ofBullet?_lead (by decide) (by decide), hsplit] at hfolded
  have hplace := congrArg (List.map PreferenceEntry.reasoning) hfolded
  exact absurd hplace (by decide +kernel)

end Scrutiny.PreferenceLog
