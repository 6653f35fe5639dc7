import Scrutiny.Proofs.Detect.ImportForm

/-!
The rows that an import statement is written on.  Only the first of them opens an import, and before
the last has been put to the others there is no statement to be read.
-/

namespace Scrutiny.Imports

open Text Matcher

/-! ## 1. Lines that open an import -/

theorem exists_of_opensImport {line : List Char} (h : opensImport line = true) :
    ∃ c rest, line = "import".toList ++ c :: rest ∧ isIdentChar c = false := by
  rw [opensImport, dropPrefix?] at h
  split at h
  next c rest heq =>
    split at heq
    next hbegins =>
      obtain ⟨back, rfl⟩ := List.isPrefixOf_iff_prefix.mp hbegins
      rw [List.drop_left] at heq
      refine ⟨c, rest, by rw [Option.some.inj heq], ?_⟩
      simp only [Bool.or_eq_true, beq_iff_eq] at h
      rcases h with (((h | rfl) | rfl) | rfl) | rfl
      · exact isIdentChar_of_isBlank h
      all_goals rfl
    next => exact absurd heq (by simp)
  next => exact absurd h Bool.false_ne_true

-- At the beginning of a line the keyword is a word if it does not go on behind it.
theorem import_mem_words {line after : List Char}
    (hline : line.dropWhile isBlank = "import".toList ++ after)
    (hafter : after.head?.any isIdentChar = false) : "import".toList ∈ words line := by
  have hblanks : isBlankText (line.takeWhile isBlank) = true := List.all_takeWhile
  have hbefore : (line.takeWhile isBlank).getLast?.any isIdentChar = false := by
    cases hlast : (line.takeWhile isBlank).getLast? with
    | none => rfl
    | some c => exact isIdentChar_of_mem_gap hblanks c (List.mem_of_getLast? hlast)
  refine mem_words_of_standsIn (by decide) (by decide) ?_
  refine ⟨line.takeWhile isBlank, after, ?_, hbefore, hafter⟩
  rw [List.append_assoc, ← hline, List.takeWhile_append_dropWhile]

-- A quote behind the line does not make an import of it.
theorem opensImport_eq_false {line back : List Char} (hwords : "import".toList ∉ words line)
    (hback : ∀ c ∈ back.head?, isQuote c = true) :
    opensImport (trimStart (line ++ back)) = false := by
  by_contra hopens
  obtain ⟨c, rest, hline, hc⟩ := exists_of_opensImport (by simpa using hopens)
  rw [trimStart, List.dropWhile_append] at hline
  split at hline
  next =>
    cases back with
    | nil => exact absurd hline (by simp)
    | cons d back =>
      have hquote := hback d rfl
      rw [List.dropWhile_cons_of_neg (by simp [isBlank_of_isQuote hquote])] at hline
      obtain ⟨rfl, -⟩ := List.cons.inj hline
      exact absurd hquote (by decide)
  next =>
    rcases List.append_eq_append_iff.mp hline with ⟨front, hword, hrest⟩ | ⟨after, hsolid, hrest⟩
    · cases front with
      | nil =>
        have hsolid : line.dropWhile isBlank = "import".toList ++ [] := by
          rw [hword, List.append_nil, List.append_nil]
        exact hwords (import_mem_words hsolid rfl)
      | cons d front =>
        -- The keyword would go on into what stands behind the line, where there is a quote.
        have hquote : isQuote d = true := hback d (by rw [hrest]; rfl)
        have hmem : d ∈ "import".toList := hword ▸ List.mem_append_right _ List.mem_cons_self
        have hletters : "import".toList.all (fun c => !isQuote c) = true := by decide
        have hletter := List.all_eq_true.mp hletters d hmem
        rw [hquote] at hletter
        exact absurd hletter Bool.false_ne_true
    · refine hwords (import_mem_words hsolid ?_)
      cases after with
      | nil => rfl
      | cons d after =>
        obtain ⟨rfl, -⟩ := List.cons.inj hrest
        exact hc

theorem opensImport_indent {indent rest : List Char} {c : Char}
    (hindent : isBlankText indent = true) (hc : isBlank c = true ∨ isQuote c = true) :
    opensImport (trimStart (indent ++ ("import".toList ++ c :: rest))) = true := by
  have hsolid : SolidStart ("import".toList ++ c :: rest) := ⟨'i', rfl, rfl⟩
  rw [trimStart_append hindent, hsolid.trimStart, opensImport, dropPrefix?_append]
  rcases hc with hblank | hquote
  · simp [hblank]
  · rw [isQuote] at hquote
    change (isBlank c || c == '\x7b' || c == '*' || c == '\'' || c == '"') = true
    rw [Bool.or_assoc, hquote, Bool.or_true]

/-! ## 2. The rows of a statement -/

namespace Written

variable {written : Written}

/-- The lines that a statement is written on. -/
def rows (written : Written) : List (List Char) :=
  pieces written.text

theorem WellFormed.newline_not_mem_quoted (h : written.WellFormed) :
    '\n' ∉ written.quoted ++ written.ending := by
  have hquote {c : Char} (hc : isQuote c = true) : '\n' ≠ c := by
    rintro rfl
    exact absurd hc (by decide)
  simp only [quoted, List.mem_append, List.mem_cons, List.not_mem_nil, or_false, not_or]
  exact ⟨⟨⟨hquote h.opening, fun hc => (h.source _ hc).2 rfl⟩, hquote h.closing⟩,
    fun hc => (h.ending _ hc).2 rfl⟩

-- Before the source stand only characters of clauses.
theorem WellFormed.isClauseChar_front (h : written.WellFormed) :
    ∀ c ∈ written.indent ++ "import".toList ++ written.middle, isClauseChar c = true := by
  have hword (text : List Char) (htext : text.all isClauseChar = true) :
      ∀ c ∈ text, isClauseChar c = true := List.all_eq_true.mp htext
  have hgap := isClauseChar_of_isBlankText h.gap
  intro c hc
  rw [List.mem_append, List.mem_append, middle] at hc
  rcases hc with (hc | hc) | hc
  · exact isClauseChar_of_isBlankText h.indent c hc
  · exact hword "import".toList (by decide) c hc
  · cases hbinding : written.binding with
    | none =>
      rw [hbinding] at hc
      exact hgap c hc
    | some binding =>
      obtain ⟨hmark, hclause, hbefore, -, hafter⟩ := h.binding binding hbinding
      rw [hbinding] at hc
      simp only [Binding.text, List.mem_append] at hc
      rcases hc with hc | hc | hc | hc | hc | hc
      · exact hgap c hc
      · rw [Binding.markText] at hc
        cases hgapMark : binding.mark with
        | none => simp [hgapMark] at hc
        | some gap =>
          rw [hgapMark] at hc
          rcases List.mem_append.mp hc with hc | hc
          · exact hword "type".toList (by decide) c hc
          · exact isClauseChar_of_isBlankText (hmark gap hgapMark).1 c hc
      · exact hclause.isClauseChar c hc
      · exact isClauseChar_of_isBlankText hbefore c hc
      · exact hword "from".toList (by decide) c hc
      · exact isClauseChar_of_isBlankText hafter c hc

theorem WellFormed.import_not_mem_words (h : written.WellFormed) :
    "import".toList ∉ words written.middle := by
  have hnil {gap : List Char} (hgap : isBlankText gap = true) : words gap = [] := by
    have hwords := words_append_of_gap (isIdentChar_of_mem_gap hgap) []
    rwa [List.nil_append, words_nil] at hwords
  rw [middle]
  cases hbinding : written.binding with
  | none =>
    change "import".toList ∉ words written.gap
    rw [hnil h.gap]
    exact List.not_mem_nil
  | some binding =>
    obtain ⟨hmark, hclause, hbefore, hbeforeNe, hafter⟩ := h.binding binding hbinding
    have hfrom : words ("from".toList ++ binding.after) = ["from".toList] := by
      rw [words_append_of_gap (isIdentChar_of_mem_gap hafter)]
      exact words_of_all (by decide) (by decide)
    have htype : words "type".toList = ["type".toList] := words_of_all (by decide) (by decide)
    have hrest : "import".toList ∉ words (binding.clause.text ++
        (binding.before ++ ("from".toList ++ binding.after))) := by
      rw [words_append_gap hbeforeNe (isIdentChar_of_mem_gap hbefore), hfrom, List.mem_append,
        not_or]
      exact ⟨fun hmem => hclause.ne_import_of_mem_words _ hmem rfl, by decide⟩
    change "import".toList ∉ words (written.gap ++ binding.text)
    rw [words_gap_append (isIdentChar_of_mem_gap h.gap), Binding.text, Binding.markText]
    cases hgapMark : binding.mark with
    | none => exact hrest
    | some gap =>
      obtain ⟨hgap, hgapNe⟩ := hmark gap hgapMark
      change "import".toList ∉ words (("type".toList ++ gap) ++ _)
      rw [List.append_assoc, words_append_gap hgapNe (isIdentChar_of_mem_gap hgap), htype,
        List.mem_append, not_or]
      exact ⟨by decide, hrest⟩

-- Behind the keyword stands a blank or the quote that opens the source, on the same line.
theorem WellFormed.exists_head (h : written.WellFormed) :
    ∃ c rest, written.middle ++ (written.quoted ++ written.ending) = c :: rest ∧ c ≠ '\n' ∧
      (isBlank c = true ∨ isQuote c = true) := by
  cases hgap : written.gap with
  | nil =>
    have hnone : written.binding = none := by
      by_contra hne
      exact h.gap_ne_nil hne hgap
    have hmiddle : written.middle = [] := by rw [middle, hnone, ← hgap]
    refine ⟨written.opening, _, by rw [hmiddle]; rfl, ?_, .inr h.opening⟩
    intro hnewline
    have hopening := h.opening
    rw [hnewline] at hopening
    exact absurd hopening (by decide)
  | cons c gap =>
    have hblank : isBlank c = true :=
      List.all_eq_true.mp h.gap c (by rw [hgap]; exact List.mem_cons_self)
    have hnewline : c ≠ '\n' := by
      rintro rfl
      exact h.newline_not_mem_gap (by rw [hgap]; exact List.mem_cons_self)
    have hmiddle : ∃ rest, written.middle = c :: rest := by
      rw [middle, hgap]
      cases written.binding with
      | none => exact ⟨_, rfl⟩
      | some binding => exact ⟨_, rfl⟩
    obtain ⟨rest, hmiddle⟩ := hmiddle
    exact ⟨c, _, by rw [hmiddle]; rfl, hnewline, .inl hblank⟩

/-- Of the rows of a statement the first opens an import and no other one does. -/
theorem WellFormed.exists_rows (h : written.WellFormed) :
    ∃ first rest, written.rows = first :: rest ∧ opensImport (trimStart first) = true ∧
      ∀ row ∈ rest, opensImport (trimStart row) = false := by
  have hkeyword : '\n' ∉ written.indent ++ "import".toList := by
    rw [List.mem_append, not_or]
    exact ⟨h.newline_not_mem_indent, by decide⟩
  obtain ⟨c, tail, hhead, hnewline, hc⟩ := h.exists_head
  obtain ⟨piece, rest, htail⟩ := List.exists_cons_of_ne_nil (pieces_ne_nil tail)
  have hpieces : pieces (written.middle ++ (written.quoted ++ written.ending)) =
      (c :: piece) :: rest := by
    rw [hhead, pieces_cons hnewline, htail]
    rfl
  refine ⟨written.indent ++ "import".toList ++ c :: piece, rest, ?_, ?_, ?_⟩
  · rw [rows, text, ← List.append_assoc]
    exact pieces_append_left hkeyword hpieces
  · rw [List.append_assoc]
    exact opensImport_indent h.indent hc
  · intro row hrow
    obtain ⟨init, last, hmiddle, hall⟩ :=
      exists_pieces_append_right written.middle h.newline_not_mem_quoted
    have hwords {part : List Char} (hpart : part ∈ init ++ [last]) :
        "import".toList ∉ words part := by
      intro hmem
      refine h.import_not_mem_words ?_
      rw [words_eq_flatMap_pieces, hmiddle]
      exact List.mem_flatMap.mpr ⟨part, hpart, hmem⟩
    have hmem : row ∈ init ++ [last ++ (written.quoted ++ written.ending)] := by
      rw [← hall, hpieces]
      exact List.mem_cons_of_mem _ hrow
    rcases List.mem_append.mp hmem with hmem | hmem
    · rw [← List.append_nil row]
      exact opensImport_eq_false (hwords (List.mem_append_left _ hmem)) (by simp)
    · rw [List.mem_singleton.mp hmem]
      refine opensImport_eq_false (hwords (List.mem_append_right _ List.mem_cons_self)) ?_
      intro d hd
      obtain rfl := Option.some.inj hd
      exact h.opening

-- Only the last row has a quote or a semicolon.
theorem WellFormed.isClauseChar_rows (h : written.WellFormed) :
    ∀ row ∈ written.rows.dropLast, ∀ c ∈ row, isClauseChar c = true := by
  obtain ⟨init, last, hfront, hall⟩ := exists_pieces_append_right
    (written.indent ++ "import".toList ++ written.middle) h.newline_not_mem_quoted
  have hrows : written.rows = init ++ [last ++ (written.quoted ++ written.ending)] := by
    rw [← hall, rows, text]
    simp only [List.append_assoc]
  intro row hrow c hc
  rw [hrows, List.dropLast_concat] at hrow
  have hpiece : row ∈ pieces (written.indent ++ "import".toList ++ written.middle) := by
    rw [hfront]
    exact List.mem_append_left _ hrow
  exact h.isClauseChar_front c (subset_of_mem_pieces hpiece hc)

end Written

/-! ## 3. Reading the rows -/

theorem matchStart?_eq_none {text : List Char} (h : ∀ c ∈ text, isClauseChar c = true) :
    statement.matchStart? text = none := by
  have hcount : text.countP isQuote = 0 := by
    rw [List.countP_eq_zero]
    intro c hc
    simp [isQuote_of_isClauseChar (h c hc)]
  have hfails : statement.Fails text := needs_statement.fails (by rw [hcount]; decide)
  rw [Matcher.matchStart?, hfails (Cursor.ofText text) rfl]
  rfl

-- A row that is put to those before it leaves the text and the other rows as they were.
theorem intercalate_joined (text row : List Char) (rows : List (List Char)) :
    ['\n'].intercalate ((text ++ '\n' :: row) :: rows) =
      ['\n'].intercalate (text :: row :: rows) := by
  cases rows with
  | nil => simp
  | cons next rows => simp [List.intercalate_cons_cons]

theorem isClauseChar_joined {text row : List Char} {rows : List (List Char)}
    (h : ∀ part ∈ (text :: row :: rows).dropLast, ∀ c ∈ part, isClauseChar c = true) :
    ∀ part ∈ ((text ++ '\n' :: row) :: rows).dropLast, ∀ c ∈ part, isClauseChar c = true := by
  cases rows with
  | nil => simp
  | cons next rows =>
    rw [List.dropLast_cons_cons, List.dropLast_cons_cons] at h
    rw [List.dropLast_cons_cons]
    intro part hpart c hc
    rcases List.mem_cons.mp hpart with rfl | hpart
    · rw [List.mem_append, List.mem_cons] at hc
      rcases hc with hc | rfl | hc
      · exact h text List.mem_cons_self c hc
      · rfl
      · exact h row (List.mem_cons_of_mem _ List.mem_cons_self) c hc
    · exact h part (List.mem_cons_of_mem _ (List.mem_cons_of_mem _ hpart)) c hc

-- The rows are put together one by one, and before the last there is no statement.
theorem readStatement?_rows {source : List Char} {names : List ImportedName}
    {rows : List (List Char)} {more : Nat} {text : List Char}
    (hlength : rows.length ≤ more)
    (hread : statement.matchStart? (['\n'].intercalate (text :: rows)) = some (source, names))
    (hchars : ∀ row ∈ (text :: rows).dropLast, ∀ c ∈ row, isClauseChar c = true)
    (hopens : ∀ row ∈ rows, opensImport (trimStart row) = false) (following : List (List Char)) :
    readStatement? more text (rows ++ following) = some (rows.length, source, names) := by
  induction rows generalizing more text with
  | nil =>
    rw [List.intercalate_singleton] at hread
    unfold readStatement?
    rw [hread]
    rfl
  | cons row rows ih =>
    cases more with
    | zero => exact absurd hlength (Nat.not_succ_le_zero _)
    | succ more =>
      have htext : ∀ c ∈ text, isClauseChar c = true :=
        hchars text (by rw [List.dropLast_cons_cons]; exact List.mem_cons_self)
      have hsemicolon : (text.reverse.takeWhile (· != '\n')).contains ';' = false := by
        rw [List.contains_eq_mem, decide_eq_false_iff_not]
        intro hmem
        have hclause := htext ';' (List.mem_reverse.mp ((List.takeWhile_prefix _).subset hmem))
        exact absurd hclause (by decide)
      have hrow := hopens row List.mem_cons_self
      have hrest := ih (Nat.le_of_succ_le_succ hlength) (intercalate_joined text row rows ▸ hread)
        (isClauseChar_joined hchars) fun part hpart => hopens part (List.mem_cons_of_mem _ hpart)
      unfold readStatement?
      simp only [matchStart?_eq_none htext, List.cons_append, hsemicolon, hrow, Bool.or_self,
        Bool.false_eq_true, if_false, hrest, Option.map_some, List.length_cons]

end Scrutiny.Imports
