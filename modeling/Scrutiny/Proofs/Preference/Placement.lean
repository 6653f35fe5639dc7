import Mathlib.Data.List.TakeDrop
import Scrutiny.Preference.Log
import Scrutiny.Proofs.Text.Lines

/-!
Where a log takes a new line.  Writing puts it into the section of a decision.  Blank rows and the
blanks at the ends of rows may change; apart from them a log shows what it showed before, and behind
it the headings that were missing.
-/

open Scrutiny.Text

namespace Scrutiny.PreferenceLog

/-! ## 1. Rows and sections -/

/-- The row opens a section, which may be that of a decision. -/
def isHeader (row : List Char) : Bool :=
  ['#', '#', ' '].isPrefixOf (trimEnd row)

/-- The section behind a row. -/
def sectionOf (current : Option Decision) (row : List Char) : Option Decision :=
  if isHeader row then Decision.ofHeader? (trimEnd row) else current

/-- The section behind rows. -/
def sectionAfter (current : Option Decision) (rows : List (List Char)) : Option Decision :=
  rows.foldl sectionOf current

theorem isHeader_of_blank {row : List Char} (h : isBlankText row = true) :
    isHeader row = false := by
  rw [isHeader, trimEnd_eq_nil.mpr h]
  rfl

theorem isHeader_of_head? {row : List Char} (h : row.head? ≠ some '#') :
    isHeader row = false := by
  by_cases hblank : isBlankText row = true
  · exact isHeader_of_blank hblank
  · have hhead := head?_trimEnd (Bool.eq_false_iff.mpr hblank)
    rw [isHeader]
    cases htrim : trimEnd row with
    | nil => rfl
    | cons c rest =>
      rw [htrim] at hhead
      have hc : ('#' == c) = false := by
        rw [beq_eq_false_iff_ne]
        rintro rfl
        exact h hhead.symm
      rw [List.isPrefixOf_cons_cons, hc, Bool.false_and]

theorem sectionAfter_append (current : Option Decision) (front back : List (List Char)) :
    sectionAfter current (front ++ back) = sectionAfter (sectionAfter current front) back :=
  List.foldl_append

theorem sectionAfter_of_no_header (current : Option Decision) {rows : List (List Char)}
    (h : ∀ row ∈ rows, isHeader row = false) : sectionAfter current rows = current := by
  induction rows with
  | nil => rfl
  | cons row rows ih =>
    have hrow := h row List.mem_cons_self
    rw [sectionAfter, List.foldl_cons, sectionOf, hrow]
    exact ih fun r hr => h r (List.mem_cons_of_mem _ hr)

theorem sectionOf_header (current : Option Decision) {decision : Decision} {row : List Char}
    (h : trimEnd row = decision.header.toList) : sectionOf current row = some decision := by
  rw [sectionOf, isHeader, h]
  cases decision <;> rfl

theorem trimEnd_header (decision : Decision) :
    trimEnd decision.header.toList = decision.header.toList := by
  cases decision <;> rfl

theorem newline_not_mem_header (decision : Decision) : '\n' ∉ decision.header.toList := by
  cases decision <;> decide

/-! ## 2. What is seen -/

/-- The rows that are not blank, without the blanks at their ends. -/
def seenRows (rows : List (List Char)) : List (List Char) :=
  (rows.map trimEnd).filter fun row => !row.isEmpty

/-- What is seen of a text. -/
def seen (text : List Char) : List (List Char) :=
  seenRows (lines text)

theorem seenRows_append (front back : List (List Char)) :
    seenRows (front ++ back) = seenRows front ++ seenRows back := by
  rw [seenRows, List.map_append, List.filter_append, seenRows, seenRows]

theorem seenRows_cons (row : List Char) (rows : List (List Char)) :
    seenRows (row :: rows) = seenRows [row] ++ seenRows rows :=
  seenRows_append [row] rows

theorem seenRows_singleton (row : List Char) :
    seenRows [row] = if isBlankText row then [] else [trimEnd row] := by
  by_cases hblank : isBlankText row = true
  · rw [if_pos hblank, seenRows, List.map_singleton, trimEnd_eq_nil.mpr hblank]
    rfl
  · rw [if_neg hblank]
    rw [← trimEnd_eq_nil, ← List.isEmpty_iff] at hblank
    simp [seenRows, hblank]

theorem seenRows_of_blank {rows : List (List Char)} (h : ∀ row ∈ rows, isBlankText row = true) :
    seenRows rows = [] := by
  induction rows with
  | nil => rfl
  | cons row rows ih =>
    rw [List.forall_mem_cons] at h
    rw [seenRows_cons, seenRows_singleton, if_pos h.1, ih h.2, List.append_nil]

-- Neither the blanks at the ends of rows are seen nor an empty row at the end.
theorem seenRows_congr {rows others : List (List Char)}
    (h : rows.map trimEnd = others.map trimEnd ∨ rows.map trimEnd = others.map trimEnd ++ [[]]) :
    seenRows rows = seenRows others := by
  rcases h with h | h
  · rw [seenRows, seenRows, h]
  · rw [seenRows, seenRows, h, List.filter_append]
    exact List.append_nil _

/-- Sections are those of the rows that are seen. -/
theorem sectionAfter_seenRows (current : Option Decision) (rows : List (List Char)) :
    sectionAfter current (seenRows rows) = sectionAfter current rows := by
  induction rows generalizing current with
  | nil => rfl
  | cons row rows ih =>
    have hrow : sectionAfter current (seenRows [row]) = sectionOf current row := by
      rw [seenRows_singleton]
      by_cases hblank : isBlankText row = true
      · rw [if_pos hblank, sectionOf, isHeader_of_blank hblank]
        rfl
      · rw [if_neg hblank, sectionAfter, List.foldl_cons, List.foldl_nil, sectionOf, sectionOf,
          isHeader, isHeader, trimEnd_trimEnd]
    rw [seenRows_cons, sectionAfter_append, hrow, ih]
    rfl

theorem sectionAfter_seen (current : Option Decision) (text : List Char) :
    sectionAfter current (seen text) = sectionAfter current (lines text) :=
  sectionAfter_seenRows current (lines text)

theorem seen_eq_pieces (text : List Char) : seen text = seenRows (pieces text) :=
  (seenRows_congr (map_trimEnd_pieces text)).symm

theorem seen_append_newline (front back : List Char) :
    seen (front ++ '\n' :: back) = seen front ++ seen back := by
  rw [seen_eq_pieces, pieces_append_newline, seenRows_append, ← seen_eq_pieces, ← seen_eq_pieces]

theorem seen_of_not_mem {row : List Char} (h : '\n' ∉ row) : seen row = seenRows [row] := by
  rw [seen_eq_pieces, pieces_of_not_mem h]

-- Nor are the blanks at the end of a text.
theorem seen_append_of_blank (text : List Char) {blanks : List Char}
    (h : isBlankText blanks = true) : seen (text ++ blanks) = seen text := by
  induction blanks using List.reverseRecOn with
  | nil => rw [List.append_nil]
  | append_singleton blanks c ih =>
    rw [isBlankText, List.all_append, Bool.and_eq_true, List.all_cons, Bool.and_eq_true] at h
    have hlast := seenRows_congr (map_trimEnd_pieces_concat (text ++ blanks) h.2.1)
    rw [← List.append_assoc, seen_eq_pieces, hlast, ← seen_eq_pieces, ih h.1]

theorem seen_trimEnd (text : List Char) : seen (trimEnd text) = seen text := by
  obtain ⟨blanks, hblanks, htext⟩ := exists_trimEnd_append text
  have hseen := seen_append_of_blank (trimEnd text) hblanks
  rw [← htext] at hseen
  exact hseen.symm

/-- The rows of a text with a newline after each are seen as they are. -/
theorem seen_flatMap {rows : List (List Char)} (h : ∀ row ∈ rows, '\n' ∉ row) :
    seen (rows.flatMap fun row => row ++ ['\n']) = seenRows rows := by
  induction rows with
  | nil => rfl
  | cons row rows ih =>
    rw [List.forall_mem_cons] at h
    rw [List.flatMap_cons, List.append_assoc, List.singleton_append, seen_append_newline,
      seen_of_not_mem h.1, ih h.2, ← seenRows_cons]

theorem unlines_eq_flatMap {rows : List (List Char)} (h : rows ≠ []) :
    unlines rows = rows.flatMap fun row => row ++ ['\n'] :=
  intercalate_append_newline h

/-! ## 3. Where a row is put -/

theorem splitBlankEnd_spec (rows : List (List Char)) :
    (splitBlankEnd rows).1 ++ (splitBlankEnd rows).2 = rows ∧
      ∀ row ∈ (splitBlankEnd rows).2, isBlankText row = true := by
  have hsplit : splitBlankEnd rows =
      (rows.take (rows.length - (rows.rtakeWhile isBlankText).length),
        rows.rtakeWhile isBlankText) := rfl
  have hrows := List.rdropWhile_append_rtakeWhile (p := isBlankText) (l := rows)
  have htake : rows.take (rows.length - (rows.rtakeWhile isBlankText).length) =
      rows.rdropWhile isBlankText := by
    have hlength := congrArg List.length hrows
    rw [List.length_append] at hlength
    rw [List.prefix_iff_eq_take.mp (List.rdropWhile_prefix isBlankText rows), ← hlength,
      Nat.add_sub_cancel]
  rw [hsplit, htake]
  exact ⟨hrows, fun row hrow => List.mem_rtakeWhile_imp hrow⟩

/-- The new row stands behind rows of the section it is put into, and before nothing but the
blank rows at its end, or one blank row where there was none, and the next header. -/
theorem insertBelow_spec (line : List Char) (below : List (List Char)) :
    ∃ filled blanks padding rest,
      below = filled ++ (blanks ++ rest) ∧
      insertBelow line below = filled ++ line :: (padding ++ rest) ∧
      (∀ row ∈ filled, isHeader row = false) ∧
      (∀ row ∈ blanks, isBlankText row = true) ∧ (padding = [[]] ∨ padding = blanks) := by
  have hspan : splitSection below =
      (below.takeWhile fun row => row.head? != some '#',
        below.dropWhile fun row => row.head? != some '#') :=
    List.span_eq_takeWhile_dropWhile _ _
  obtain ⟨hbody, hblank⟩ := splitBlankEnd_spec (splitSection below).1
  refine ⟨(splitBlankEnd (splitSection below).1).1, (splitBlankEnd (splitSection below).1).2,
    if (splitBlankEnd (splitSection below).1).2.isEmpty && !(splitSection below).2.isEmpty
      then [[]] else (splitBlankEnd (splitSection below).1).2,
    (splitSection below).2, ?_, ?_, ?_, hblank, ?_⟩
  · rw [← List.append_assoc, hbody, hspan, List.takeWhile_append_dropWhile]
  · exact List.append_assoc _ _ _
  · intro row hrow
    have hmem : row ∈ (splitSection below).1 := hbody ▸ List.mem_append_left _ hrow
    rw [hspan] at hmem
    exact isHeader_of_head? (by simpa using List.mem_takeWhile_imp hmem)
  · exact ite_eq_or_eq _ _ _

-- Rows that do not end in a blank one stay together.
theorem splitBlankEnd_append {filled blanks : List (List Char)}
    (hfilled : ∀ row ∈ filled.getLast?, isBlankText row = false)
    (hblanks : ∀ row ∈ blanks, isBlankText row = true) :
    splitBlankEnd (filled ++ blanks) = (filled, blanks) := by
  have hnone : filled.reverse.takeWhile isBlankText = [] := by
    rw [← List.reverse_eq_nil_iff]
    refine List.rtakeWhile_eq_nil_iff.mpr fun hne => ?_
    rw [hfilled _ (List.getLast_mem_getLast? hne)]
    exact Bool.false_ne_true
  have hend : ((filled ++ blanks).reverse.takeWhile isBlankText).reverse = blanks := by
    rw [List.reverse_append, List.takeWhile_append_of_pos (by simpa using hblanks), hnone,
      List.append_nil, List.reverse_reverse]
  rw [splitBlankEnd, hend, List.length_append, Nat.add_sub_cancel, List.take_left]

-- A list is split where the first item stands that fails the test.
theorem span_append {α : Type} {p : α → Bool} {front back : List α}
    (hfront : ∀ a ∈ front, p a = true) (hback : ∀ a ∈ back.head?, p a = false) :
    (front ++ back).span p = (front, back) := by
  rw [List.span_eq_takeWhile_dropWhile, List.takeWhile_append_of_pos hfront,
    List.dropWhile_append_of_pos hfront]
  cases back with
  | nil => simp
  | cons a back => simp [hback a rfl]

/-- Where the section ends in blank rows, or in nothing at all, the new row is put before them. -/
theorem insertBelow_append (line : List Char) {filled blanks rest : List (List Char)}
    (hfilled : ∀ row ∈ filled, row.head? ≠ some '#' ∧ isBlankText row = false)
    (hblanks : ∀ row ∈ blanks, isBlankText row = true)
    (hrest : ∀ row ∈ rest.head?, row.head? = some '#') (hend : blanks ≠ [] ∨ rest = []) :
    insertBelow line (filled ++ (blanks ++ rest)) = filled ++ line :: (blanks ++ rest) := by
  have hbody : ∀ row ∈ filled ++ blanks, (row.head? != some '#') = true := by
    rw [List.forall_mem_append]
    refine ⟨fun row hrow => bne_iff_ne.mpr (hfilled row hrow).1, fun row hrow => ?_⟩
    rw [bne_iff_ne]
    intro hhead
    obtain ⟨rest, rfl⟩ := List.head?_eq_some_iff.mp hhead
    exact Bool.false_ne_true (hblanks _ hrow)
  have hlast : ∀ row ∈ filled.getLast?, isBlankText row = false :=
    fun row hrow => (hfilled row (List.mem_of_getLast? hrow)).2
  have hpadding : (blanks.isEmpty && !rest.isEmpty) = false := by
    rcases hend with hne | rfl
    · simp [hne]
    · simp
  rw [← List.append_assoc, insertBelow, splitSection,
    span_append hbody fun row hrow => by simpa using hrest row hrow]
  dsimp only
  rw [splitBlankEnd_append hlast hblanks, hpadding]
  simp

theorem splitAtHeader?_append {decision : Decision} {before after : List (List Char)}
    {header : List Char} (hbefore : ∀ row ∈ before, trimEnd row ≠ decision.header.toList)
    (hheader : trimEnd header = decision.header.toList) :
    splitAtHeader? decision (before ++ header :: after) = some (before, header, after) := by
  rw [splitAtHeader?, span_append (fun row hrow => bne_iff_ne.mpr (hbefore row hrow))
    (by simpa using hheader)]

theorem splitAtHeader?_eq_some {decision : Decision} {rows before after : List (List Char)}
    {header : List Char} (h : splitAtHeader? decision rows = some (before, header, after)) :
    rows = before ++ header :: after ∧ trimEnd header = decision.header.toList := by
  rw [splitAtHeader?, List.span_eq_takeWhile_dropWhile] at h
  split at h
  next front first back heq =>
    obtain ⟨rfl, rfl, rfl⟩ : front = before ∧ first = header ∧ back = after := by simpa using h
    obtain ⟨hfront, hback⟩ := Prod.mk.inj heq
    have hne : rows.dropWhile (fun line => trimEnd line != decision.header.toList) ≠ [] := by
      rw [hback]
      exact List.cons_ne_nil _ _
    have hhead := List.head_dropWhile_not _ hne
    refine ⟨?_, ?_⟩
    · rw [← hfront, ← hback, List.takeWhile_append_dropWhile]
    · simpa [hback] using hhead
  next => exact absurd h (by simp)

/-! ## 4. One line more -/

/-- The later text is the earlier one with a line put into the section of a decision: of all else
the same is seen as before, and behind it at most headings. -/
def Gains (before after : List Char) (decision : Decision) (line : List Char) : Prop :=
  '\n' ∉ line ∧ ∃ above below headings, after = above ++ (line ++ '\n' :: below) ∧
    above.getLast? = some '\n' ∧ sectionAfter none (lines above) = some decision ∧
    seen (above ++ below) = seen before ++ headings ∧
    ∀ heading ∈ headings, heading.head? = some '#'

/-- A section that is there takes the line. -/
theorem gains_of_splitAtHeader? {text line header : List Char} {decision : Decision}
    {before after : List (List Char)} (hnewline : '\n' ∉ line)
    (h : splitAtHeader? decision (lines text) = some (before, header, after)) :
    Gains text (unlines (before ++ header :: insertBelow line after)) decision line := by
  obtain ⟨hrows, hheader⟩ := splitAtHeader?_eq_some h
  obtain ⟨filled, blanks, padding, rest, hafter, hinsert, hfilled, hblanks, hpadding⟩ :=
    insertBelow_spec line after
  have htext : lines text = before ++ header :: filled ++ (blanks ++ rest) := by
    rw [hrows, hafter, List.append_assoc, List.cons_append]
  have hlines := newline_not_mem_lines text
  rw [htext, List.forall_mem_append] at hlines
  obtain ⟨habove, hlines⟩ := hlines
  obtain ⟨hnewlines, hrest⟩ := List.forall_mem_append.mp hlines
  -- the blank rows may change, but they are not seen
  have hpad : ∀ row ∈ padding, '\n' ∉ row ∧ isBlankText row = true := by
    rcases hpadding with rfl | rfl
    · simp [isBlankText]
    · exact fun row hrow => ⟨hnewlines row hrow, hblanks row hrow⟩
  have hbelow : ∀ row ∈ padding ++ rest, '\n' ∉ row :=
    List.forall_mem_append.mpr ⟨fun row hrow => (hpad row hrow).1, hrest⟩
  refine ⟨hnewline, (before ++ header :: filled).flatMap fun row => row ++ ['\n'],
    (padding ++ rest).flatMap fun row => row ++ ['\n'], [], ?_, ?_, ?_, ?_, by simp⟩
  · rw [unlines_eq_flatMap (by simp), hinsert]
    simp
  · exact getLast?_flatMap_newline (by simp)
  · rw [← sectionAfter_seen, seen_flatMap habove, sectionAfter_seenRows, sectionAfter_append,
      sectionAfter, List.foldl_cons, sectionOf_header _ hheader]
    exact sectionAfter_of_no_header _ hfilled
  · rw [← List.flatMap_append, seen_flatMap (List.forall_mem_append.mpr ⟨habove, hbelow⟩), seen,
      htext, seenRows_append, seenRows_append padding, seenRows_append _ (blanks ++ rest),
      seenRows_append blanks, seenRows_of_blank hblanks,
      seenRows_of_blank fun row hrow => (hpad row hrow).2, List.append_nil]

/-- Where there is no such section, one is made at the end. -/
theorem gains_at_end (text : List Char) (decision : Decision) {line : List Char}
    (hnewline : '\n' ∉ line) :
    Gains text ((if (trimEnd text).isEmpty then [] else trimEnd text ++ ['\n', '\n']) ++
      unlines [decision.header.toList, line]) decision line := by
  have hheader : seen (decision.header.toList ++ ['\n']) = [decision.header.toList] := by
    cases decision <;> decide
  have habove : seen ((if (trimEnd text).isEmpty then [] else trimEnd text ++ ['\n', '\n']) ++
      (decision.header.toList ++ ['\n'])) = seen text ++ [decision.header.toList] := by
    rw [← seen_trimEnd text]
    split
    next hempty => rw [List.nil_append, hheader, List.isEmpty_iff.mp hempty]; rfl
    next =>
      rw [List.append_assoc, List.cons_append, seen_append_newline, List.singleton_append,
        ← List.nil_append ('\n' :: _), seen_append_newline, hheader]
      rfl
  refine ⟨hnewline, (if (trimEnd text).isEmpty then [] else trimEnd text ++ ['\n', '\n']) ++
    (decision.header.toList ++ ['\n']), [], [decision.header.toList], ?_, ?_, ?_, ?_, ?_⟩
  · simp [unlines]
  · simp
  · rw [← sectionAfter_seen, habove, sectionAfter_append, sectionAfter, List.foldl_cons,
      List.foldl_nil, sectionOf_header _ (trimEnd_header decision)]
  · rw [List.append_nil, habove]
  · cases decision <;> decide

theorem gains_insertChars (text : List Char) (decision : Decision) {line : List Char}
    (hnewline : '\n' ∉ line) : Gains text (insertChars text decision line) decision line := by
  rw [insertChars]
  split
  next hsplit => exact gains_of_splitAtHeader? hnewline hsplit
  next => exact gains_at_end text decision hnewline

-- A blank text shows nothing, so all that is seen of a text that it was replaced by are headings.
theorem Gains.of_blank {blank text after line : List Char} {decision : Decision}
    (hblank : isBlankText blank = true) (htext : ∀ row ∈ seen text, row.head? = some '#')
    (h : Gains text after decision line) : Gains blank after decision line := by
  obtain ⟨hnewline, above, below, headings, hafter, hlast, hsection, hseen, hheadings⟩ := h
  have hnothing : seen blank = [] := seen_append_of_blank [] hblank
  refine ⟨hnewline, above, below, seen text ++ headings, hafter, hlast, hsection, ?_, ?_⟩
  · rw [hnothing, List.nil_append, hseen]
  · exact List.forall_mem_append.mpr ⟨htext, hheadings⟩

/-- Of a text with a line more the same is seen above the line and below it, and the line. -/
theorem Gains.seen_eq {before after line : List Char} {decision : Decision}
    (h : Gains before after decision line) :
    ∃ front back headings, seen after = front ++ (seenRows [line] ++ back) ∧
      sectionAfter none front = some decision ∧ front ++ back = seen before ++ headings ∧
      ∀ heading ∈ headings, heading.head? = some '#' := by
  obtain ⟨hnewline, above, below, headings, rfl, hlast, hsection, hseen, hheadings⟩ := h
  obtain ⟨init, rfl⟩ := List.getLast?_eq_some_iff.mp hlast
  have hinit : seen (init ++ ['\n']) = seen init := seen_append_of_blank init (by decide)
  refine ⟨seen init, seen below, headings, ?_, ?_, ?_, hheadings⟩
  · rw [List.append_assoc, List.singleton_append, seen_append_newline, seen_append_newline,
      seen_of_not_mem hnewline]
  · rw [← hsection, ← sectionAfter_seen, hinit]
  · rw [← hseen, List.append_assoc, List.singleton_append, seen_append_newline]

end Scrutiny.PreferenceLog
