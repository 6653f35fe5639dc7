import Scrutiny.Proofs.Preference.Bullet
import Scrutiny.Proofs.Preference.Placement

/-!
The preference log is append-only.  Reading goes through the rows that are seen of a log, with the
section they stand in; writing puts one row into a section.  What was read before is read
afterwards, and the new row between it.
-/

open Scrutiny.Text

namespace Scrutiny.PreferenceLog

/-! ## 1. Entries of rows -/

/-- The entry that a row holds in a section. -/
def entryOf? (current : Option Decision) (row : List Char) : Option PreferenceEntry :=
  if isHeader row then none
  else current.bind fun decision => PreferenceEntry.ofBullet? decision (trimEnd row)

theorem entriesOfLines_cons (current : Option Decision) (row : List Char)
    (rows : List (List Char)) :
    entriesOfLines current (row :: rows) =
      (entryOf? current row).toList ++ entriesOfLines (sectionOf current row) rows := by
  rw [entriesOfLines, entryOf?, sectionOf, isHeader]
  split
  · rfl
  · cases current.bind fun decision => PreferenceEntry.ofBullet? decision (trimEnd row) <;> rfl

theorem entriesOfLines_append (current : Option Decision) (front back : List (List Char)) :
    entriesOfLines current (front ++ back) =
      entriesOfLines current front ++ entriesOfLines (sectionAfter current front) back := by
  induction front generalizing current with
  | nil => rfl
  | cons row front ih =>
    rw [List.cons_append, entriesOfLines_cons, entriesOfLines_cons, ih, List.append_assoc]
    rfl

theorem ofBullet?_nil (decision : Decision) : PreferenceEntry.ofBullet? decision [] = none := by
  cases decision <;> rfl

-- A row that begins like a heading is no bullet.
theorem ofBullet?_heading (decision : Decision) (rest : List Char) :
    PreferenceEntry.ofBullet? decision ('#' :: rest) = none := by
  cases decision <;> rfl

theorem entryOf?_of_blank {row : List Char} (h : isBlankText row = true)
    (current : Option Decision) : entryOf? current row = none := by
  rw [entryOf?, isHeader_of_blank h, trimEnd_eq_nil.mpr h]
  cases current with
  | none => rfl
  | some decision => exact ofBullet?_nil decision

/-- Entries are those of the rows that are seen. -/
theorem entriesOfLines_seenRows (current : Option Decision) (rows : List (List Char)) :
    entriesOfLines current (seenRows rows) = entriesOfLines current rows := by
  induction rows generalizing current with
  | nil => rfl
  | cons row rows ih =>
    have hrow : entriesOfLines current (seenRows [row]) = (entryOf? current row).toList := by
      rw [seenRows_singleton]
      by_cases hblank : isBlankText row = true
      · rw [if_pos hblank, entryOf?_of_blank hblank]
        rfl
      · rw [if_neg hblank, entriesOfLines_cons, entryOf?, entryOf?, isHeader, isHeader,
          trimEnd_trimEnd]
        exact List.append_nil _
    have hsection : sectionAfter current (seenRows [row]) = sectionOf current row :=
      sectionAfter_seenRows current [row]
    rw [seenRows_cons, entriesOfLines_append, hrow, hsection, ih, ← entriesOfLines_cons]

theorem entriesOfLines_seen (current : Option Decision) (text : List Char) :
    entriesOfLines current (seen text) = entriesOfLines current (lines text) :=
  entriesOfLines_seenRows current (lines text)

theorem entriesOfLines_unlines (current : Option Decision) {rows : List (List Char)}
    (hrows : rows ≠ []) (hline : ∀ row ∈ rows, '\n' ∉ row) :
    entriesOfLines current (lines (unlines rows)) = entriesOfLines current rows := by
  rw [← entriesOfLines_seen, unlines_eq_flatMap hrows, seen_flatMap hline,
    entriesOfLines_seenRows]

theorem entryOf?_header (current : Option Decision) {decision : Decision} {row : List Char}
    (h : trimEnd row = decision.header.toList) : entryOf? current row = none := by
  rw [entryOf?, isHeader, h]
  cases decision <;> rfl

-- A section that holds one row.
theorem entriesOfLines_pair (current : Option Decision) (decision : Decision) {line : List Char}
    (hline : isHeader line = false) :
    entriesOfLines current [decision.header.toList, line] =
      (PreferenceEntry.ofBullet? decision (trimEnd line)).toList := by
  rw [entriesOfLines_cons, entryOf?_header _ (trimEnd_header decision),
    sectionOf_header _ (trimEnd_header decision), entriesOfLines_cons, entryOf?, hline]
  simp [entriesOfLines]

-- Headings hold no entries.
theorem entriesOfLines_headings (current : Option Decision) {headings : List (List Char)}
    (h : ∀ heading ∈ headings, heading.head? = some '#') :
    entriesOfLines current headings = [] := by
  induction headings generalizing current with
  | nil => rfl
  | cons heading headings ih =>
    rw [List.forall_mem_cons] at h
    obtain ⟨rest, rfl⟩ := List.head?_eq_some_iff.mp h.1
    have hnone : entryOf? current ('#' :: rest) = none := by
      have hnotBlank : isBlankText ('#' :: rest) = false := rfl
      obtain ⟨kept, hkept⟩ := List.head?_eq_some_iff.mp
        ((head?_trimEnd hnotBlank).trans (List.head?_cons (a := '#')))
      rw [entryOf?, hkept]
      split
      · rfl
      · cases current with
        | none => rfl
        | some decision => exact ofBullet?_heading decision kept
    rw [entriesOfLines_cons, hnone, ih _ h.2]
    rfl

/-! ## 2. What writing adds -/

/-- Reading a text with one line more: what was read before, and the line's entry between it. -/
theorem Gains.entriesOfLines {before after line : List Char} {decision : Decision}
    (h : Gains before after decision line) (hline : isHeader line = false) :
    ∃ front back, entriesOfLines none (lines before) = front ++ back ∧
      entriesOfLines none (lines after) =
        front ++ ((PreferenceEntry.ofBullet? decision (trimEnd line)).toList ++ back) := by
  obtain ⟨front, back, headings, hafter, hsection, hbefore, hheadings⟩ := h.seen_eq
  have hentry : PreferenceLog.entriesOfLines (some decision) [line] =
      (PreferenceEntry.ofBullet? decision (trimEnd line)).toList := by
    rw [entriesOfLines_cons, entryOf?, hline]
    exact List.append_nil _
  have hsame : sectionAfter (some decision) (seenRows [line]) = some decision := by
    rw [sectionAfter_seenRows]
    exact sectionAfter_of_no_header _ (by simpa using hline)
  refine ⟨PreferenceLog.entriesOfLines none front,
    PreferenceLog.entriesOfLines (some decision) back, ?_, ?_⟩
  · have hread := entriesOfLines_append none (seen before) headings
    rw [entriesOfLines_headings _ hheadings, List.append_nil, ← hbefore, entriesOfLines_append,
      hsection, entriesOfLines_seen] at hread
    exact hread.symm
  · rw [← entriesOfLines_seen, hafter, entriesOfLines_append, hsection, entriesOfLines_append,
      entriesOfLines_seenRows, hentry, hsame]

/-! ## 3. Adding an entry -/

theorem unbroken_padded (width n : Nat) : Unbroken (Date.padded width n) := by
  intro c hc
  have hdigit := List.all_eq_true.mp (Date.all_isAsciiDigit_padded width n) c hc
  constructor <;> rintro rfl <;> exact absurd hdigit (by decide)

theorem unbroken_date (date : Date) : Unbroken date.chars := by
  have hyear : Unbroken (Date.yearChars date.year) := by
    unfold Date.yearChars
    split
    · exact unbroken_padded _ _
    · split <;> simp [unbroken_padded]
  simp [Date.chars, hyear, unbroken_padded]

theorem unbroken_lead (entry : PreferenceEntry) : Unbroken entry.lead := by
  have hlabel : Unbroken entry.category.label.toList := by
    cases entry.category <;> simp [Category.label]
  simp [PreferenceEntry.lead, hlabel, unbroken_date, PreferenceEntry.unbroken_sanitize]

theorem unbroken_tail (entry : PreferenceEntry) : Unbroken entry.tail := by
  have hplace : Unbroken entry.place := unbroken_oneLine _
  unfold PreferenceEntry.tail
  split
  · simp [PreferenceEntry.reasoningMark, hplace, unbroken_oneLine]
  · exact hplace

/-- A bullet is one line, whatever line breaks the entry's texts hold. -/
theorem unbroken_bullet (entry : PreferenceEntry) : Unbroken entry.bullet.toList := by
  rw [PreferenceEntry.toList_bullet]
  exact unbroken_append.mpr ⟨unbroken_lead entry, unbroken_tail entry⟩

theorem newline_not_mem_bullet (entry : PreferenceEntry) : '\n' ∉ entry.bullet.toList :=
  (unbroken_bullet entry).newline_not_mem

theorem isHeader_bullet (entry : PreferenceEntry) : isHeader entry.bullet.toList = false := by
  apply isHeader_of_head?
  simp [PreferenceEntry.toList_bullet, PreferenceEntry.lead]

/-- A log with one more entry is the log with its bullet in the section of its decision. -/
theorem gains_insert (text : String) (entry : PreferenceEntry) :
    Gains text.toList (insert text entry).toList entry.decision entry.bullet.toList := by
  have h (base : String) :=
    gains_insertChars base.toList entry.decision (newline_not_mem_bullet entry)
  rw [insert, String.toList_ofList]
  split
  next hblank => exact (h template).of_blank hblank (by decide)
  next => exact h text

/-- It holds what it held before, and what the bullet is read as between it. -/
theorem entries_insert (text : String) (entry : PreferenceEntry) :
    ∃ front back, entries text = front ++ back ∧
      entries (insert text entry) = front ++
        ((PreferenceEntry.ofBullet? entry.decision (trimEnd entry.bullet.toList)).toList ++
          back) :=
  (gains_insert text entry).entriesOfLines (isHeader_bullet entry)

theorem not_blank_tail {entry : PreferenceEntry}
    (hplace : isBlankText entry.location.toList = false) : isBlankText entry.tail = false := by
  rw [← isBlankText_oneLine] at hplace
  unfold PreferenceEntry.tail PreferenceEntry.place
  split
  · rw [isBlankText, List.all_append, show (oneLine entry.location.toList).all isBlank = false
      from hplace, Bool.false_and]
  · exact hplace

theorem trimEnd_bullet {entry : PreferenceEntry}
    (hplace : isBlankText entry.location.toList = false) :
    trimEnd entry.bullet.toList = entry.lead ++ trimEnd entry.tail := by
  rw [PreferenceEntry.toList_bullet, trimEnd_append_of_not_blank _ (not_blank_tail hplace)]

/-- A bullet in a log is read as an entry with its day, category and subject. -/
theorem ofBullet?_bullet {entry : PreferenceEntry} (hvalid : entry.date.isValid = true)
    (hyear : 0 ≤ entry.date.year ∧ entry.date.year ≤ 9999)
    (hplace : isBlankText entry.location.toList = false) :
    ∃ found, PreferenceEntry.ofBullet? entry.decision (trimEnd entry.bullet.toList) = some found ∧
      found.date = entry.date ∧ found.category = entry.category ∧
      found.decision = entry.decision ∧
      found.subject = PreferenceEntry.sanitize entry.subject := by
  have htail : trimEnd entry.tail ≠ [] := by
    rw [ne_eq, trimEnd_eq_nil, not_blank_tail hplace]
    exact Bool.false_ne_true
  obtain ⟨split, hsplit⟩ : ∃ split, PreferenceEntry.placeAndReason? (trimEnd entry.tail) =
      some split := by
    cases h : trimEnd entry.tail with
    | nil => exact absurd h htail
    | cons c rest =>
      rw [PreferenceEntry.placeAndReason?]
      split <;> exact ⟨_, rfl⟩
  rw [trimEnd_bullet hplace, PreferenceEntry.ofBullet?_lead hvalid hyear, hsplit]
  exact ⟨_, rfl, rfl, rfl, rfl, rfl⟩

end Scrutiny.PreferenceLog
