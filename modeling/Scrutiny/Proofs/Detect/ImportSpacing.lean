import Scrutiny.Proofs.Detect.ImportAgreement

/-!
The blanks between the keyword of an import and what follows it.  A row opens an import also where a
brace or a star stands right behind the keyword, but no statement is read there: where the blanks
are left out, a statement is lost with all its names.
-/

namespace Scrutiny.Imports

open Text Matcher

variable {source : List Char} {names : List ImportedName} {indent gap rest : List Char}

/-! ## 1. The keyword of a statement -/

/-- The text of an import: blanks, the keyword, a gap behind it, and the rest of its rows. -/
def importText (indent gap rest : List Char) : List Char :=
  indent ++ ("import".toList ++ (gap ++ rest))

theorem trimStart_importText (hindent : isBlankText indent = true) (gap rest : List Char) :
    trimStart (importText indent gap rest) = "import".toList ++ (gap ++ rest) := by
  have hsolid : SolidStart ("import".toList ++ (gap ++ rest)) := ⟨'i', rfl, rfl⟩
  rw [importText, trimStart_append hindent, hsolid.trimStart]

theorem isBlank_of_isMiddle {middle : List Char} (h : Rules.IsMiddle middle) :
    ∀ c ∈ middle.head?, isBlank c = true := by
  intro c hc
  rcases h with hblank | ⟨gap, clause, after, rfl, hgap, hgapNe, -, -⟩
  · exact List.all_eq_true.mp hblank c (List.mem_of_mem_head? hc)
  · obtain ⟨d, tail, rfl⟩ := List.exists_cons_of_ne_nil hgapNe
    obtain rfl := Option.some.inj hc
    exact List.all_eq_true.mp hgap d List.mem_cons_self

/-- Where a statement is read, a blank or a quote stands behind the keyword. -/
theorem exists_keyword_of_matchStart? {text : List Char}
    (h : statement.matchStart? text = some (source, names)) :
    ∃ c back, trimStart text = "import".toList ++ c :: back ∧
      (isBlank c = true ∨ isQuote c = true) := by
  obtain ⟨middle, hmiddle, indent, quoted, rest, rfl, hindent, hquoted⟩ := Rules.exists_isImport h
  obtain ⟨opening, closing, rfl, hopening, -⟩ := hquoted
  have htrim := trimStart_importText hindent middle (opening :: (source ++ [closing]) ++ rest)
  rw [importText, ← List.append_assoc "import".toList] at htrim
  rw [htrim, List.append_assoc]
  cases middle with
  | nil => exact ⟨opening, _, rfl, .inr hopening⟩
  | cons c middle => exact ⟨c, _, rfl, .inl (isBlank_of_isMiddle hmiddle c rfl)⟩

/-- The text goes on with a brace or a star. -/
def BeginsGroup (rest : List Char) : Prop :=
  ∃ c back, rest = c :: back ∧ (c = '\x7b' ∨ c = '*')

theorem BeginsGroup.append (h : BeginsGroup rest) (back : List Char) :
    BeginsGroup (rest ++ back) := by
  obtain ⟨c, tail, rfl, hc⟩ := h
  exact ⟨c, tail ++ back, rfl, hc⟩

theorem matchStart?_of_beginsGroup (hindent : isBlankText indent = true)
    (hrest : BeginsGroup rest) : statement.matchStart? (importText indent [] rest) = none := by
  obtain ⟨c, back, rfl, hc⟩ := hrest
  rw [← Option.not_isSome_iff_eq_none, Option.isSome_iff_exists]
  rintro ⟨⟨source, names⟩, hread⟩
  obtain ⟨d, tail, htrim, hd⟩ := exists_keyword_of_matchStart? hread
  rw [trimStart_importText hindent, List.nil_append] at htrim
  obtain ⟨rfl, -⟩ := List.cons.inj (List.append_cancel_left htrim)
  rcases hc with rfl | rfl <;> exact absurd hd (by decide)

/-! ## 2. The rows of a statement -/

-- A row that is blank opens nothing.
theorem newline_not_mem_indent (hindent : isBlankText indent = true)
    (hforms : Forms (pieces (importText indent gap rest)) source names) : '\n' ∉ indent := by
  intro hmem
  obtain ⟨front, back, rfl⟩ := List.append_of_mem hmem
  obtain ⟨row, more, hfront⟩ := List.exists_cons_of_ne_nil (pieces_ne_nil front)
  have hrow : isBlankText row = true := by
    rw [isBlankText, List.all_eq_true]
    intro c hc
    have hpiece : row ∈ pieces front := hfront ▸ List.mem_cons_self
    exact List.all_eq_true.mp hindent c
      (List.mem_append_left _ (subset_of_mem_pieces hpiece hc))
  have hopens := hforms.opens row (by
    rw [importText, List.append_assoc, List.cons_append, pieces_append_newline, hfront]
    rfl)
  have htrim : trimStart row = [] := by
    rw [← List.append_nil row, trimStart_append hrow]
    rfl
  rw [htrim] at hopens
  exact absurd hopens (by decide)

/-- Without the blanks the first row still opens an import, and the other ones are rows of the
statement. -/
theorem exists_pieces_importText (hindent : isBlankText indent = true) (hrest : BeginsGroup rest)
    (hforms : Forms (pieces (importText indent gap rest)) source names) :
    ∃ back more, pieces (importText indent [] rest) = importText indent [] back :: more ∧
      BeginsGroup back ∧ ∀ row ∈ more, opensImport (trimStart row) = false := by
  obtain ⟨c, tail, rfl, hc⟩ := hrest
  have hnewline : c ≠ '\n' := by
    rcases hc with rfl | rfl <;> decide
  have hkeyword : '\n' ∉ indent ++ "import".toList := by
    rw [List.mem_append, not_or]
    exact ⟨newline_not_mem_indent hindent hforms, by decide⟩
  obtain ⟨piece, more, htail⟩ := List.exists_cons_of_ne_nil (pieces_ne_nil tail)
  have hpieces : pieces (c :: tail) = (c :: piece) :: more := by
    rw [pieces_cons hnewline, htail]
    rfl
  refine ⟨c :: piece, more, ?_, ⟨c, piece, rfl, hc⟩, fun row hrow => ?_⟩
  · have hall := pieces_append_left hkeyword hpieces
    simpa [importText] using hall
  · have hsuffix := tail_pieces_suffix (indent ++ ("import".toList ++ gap)) (c :: tail)
    rw [hpieces] at hsuffix
    apply hforms.opens_once
    simpa [importText] using hsuffix.subset hrow

theorem opensImport_importText (hindent : isBlankText indent = true) (hrest : BeginsGroup rest) :
    opensImport (trimStart (importText indent [] rest)) = true := by
  obtain ⟨c, back, rfl, hc⟩ := hrest
  rw [trimStart_importText hindent, List.nil_append, opensImport, dropPrefix?_append]
  rcases hc with rfl | rfl <;> rfl

/-! ## 3. Rows that form no statement -/

theorem exists_forms_cons {row : List Char} {rows : List (List Char)} {count : Nat}
    (h : Forms ((row :: rows).take count) source names) :
    ∃ more, Forms (row :: more) source names := by
  cases count with
  | zero => exact absurd rfl h.ne_nil
  | succ count => exact ⟨rows.take count, h⟩

theorem not_forms_of_opens {row : List Char} (h : opensImport (trimStart row) = false)
    (more : List (List Char)) : ¬ Forms (row :: more) source names := by
  intro hforms
  rw [hforms.opens row rfl] at h
  exact absurd h.symm Bool.false_ne_true

theorem not_forms_importText (hindent : isBlankText indent = true) (hrest : BeginsGroup rest)
    (more : List (List Char)) : ¬ Forms (importText indent [] rest :: more) source names := by
  intro hforms
  obtain ⟨back, hback⟩ : ∃ back, ['\n'].intercalate (importText indent [] rest :: more) =
      importText indent [] (rest ++ back) := by
    cases more with
    | nil => exact ⟨[], by simp⟩
    | cons row more =>
      refine ⟨'\n' :: ['\n'].intercalate (row :: more), ?_⟩
      simp [importText, List.intercalate_cons_cons]
  have hread := hforms.reads
  rw [hback, matchStart?_of_beginsGroup hindent (hrest.append back)] at hread
  exact absurd hread (by simp)

/-- Rows none of which opens an import have no statements. -/
theorem ranges_of_not_opens (number : Nat) {rows : List (List Char)}
    (h : ∀ row ∈ rows, opensImport (trimStart row) = false) : Ranges number rows [] := by
  induction rows generalizing number with
  | nil => exact .nil number
  | cons row rows ih =>
    rw [List.forall_mem_cons] at h
    refine .other (fun count source names hforms => ?_) (ih (number + 1) h.2)
    obtain ⟨more, hmore⟩ := exists_forms_cons hforms
    exact not_forms_of_opens h.1 more hmore

-- Only the last row has a quote, so that there is nothing to be read before it.
theorem Written.WellFormed.forms {written : Written} (h : written.WellFormed)
    (hmistake : ∀ binding ∈ written.binding, ¬ binding.MistakesName) :
    Forms written.rows written.source written.names := by
  obtain ⟨first, more, hrows, hopens, hmore⟩ := h.exists_rows
  have hne : written.rows ≠ [] := pieces_ne_nil written.text
  refine ⟨hne, h.length_rows, ?_, ?_, ?_, ?_, fun front hfront hall => ?_⟩
  · intro row hrow
    rw [hrows] at hrow
    obtain rfl := Option.some.inj hrow
    exact hopens
  · rw [hrows]
    exact hmore
  · intro row hrow hmem
    exact absurd (h.isClauseChar_rows row hrow ';' hmem) (by decide)
  · rw [Written.rows, intercalate_pieces]
    exact h.matchStart?_text hmistake
  · have hbegins : front <+: written.rows.dropLast := by
      rw [← List.dropLast_append_getLast hne, List.prefix_concat_iff,
        List.dropLast_append_getLast hne] at hfront
      exact hfront.resolve_left hall
    apply matchStart?_eq_none
    intro c hc
    rcases mem_intercalate hc with rfl | ⟨part, hpart, hc⟩
    · decide
    · exact h.isClauseChar_rows part (hbegins.subset hpart) c hc

/-! ## 4. Statements that are closed up -/

variable {body : List (List Char)} {content closed : List Char}

/-- A statement with a brace or a star is read where blanks stand before it, and is all that is read
if the rows below open no import.  If nothing stands between the keyword and the brace or star, the
first row still opens an import, but nothing is read. -/
theorem statements_closed_up (hindent : isBlankText indent = true) (hrest : BeginsGroup rest)
    (hforms : Forms (pieces (importText indent gap rest)) source names)
    (hbody : ∀ row ∈ body, opensImport (trimStart row) = false)
    (hcontent : lines content = pieces (importText indent gap rest) ++ body)
    (hclosed : lines closed = pieces (importText indent [] rest) ++ body) :
    statements content = [⟨1, (pieces (importText indent gap rest)).length, source, names⟩] ∧
      (∃ row ∈ (lines closed).head?, opensImport (trimStart row) = true) ∧
      statements closed = [] := by
  obtain ⟨back, more, hrows, hback, hmore⟩ := exists_pieces_importText hindent hrest hforms
  rw [hrows, List.cons_append] at hclosed
  refine ⟨?_, ⟨_, ?_, opensImport_importText hindent hback⟩, ?_⟩
  · rw [statements_eq_iff, hcontent]
    have hranges := Ranges.statement hforms
      (ranges_of_not_opens (1 + (pieces (importText indent gap rest)).length) hbody)
    rwa [Nat.add_sub_cancel_left] at hranges
  · rw [hclosed]
    rfl
  · have hbelow : ∀ row ∈ more ++ body, opensImport (trimStart row) = false :=
      List.forall_mem_append.mpr ⟨hmore, hbody⟩
    rw [statements_eq_iff, hclosed]
    refine .other (fun count source names hfirst => ?_) (ranges_of_not_opens 2 hbelow)
    obtain ⟨further, hfurther⟩ := exists_forms_cons hfirst
    exact not_forms_importText hindent hback further hfurther

/-- A statement with a star, and spaces before it. -/
def sampleStar : Written where
  indent := [' ']
  gap := [' ', ' ']
  binding := some
    { mark := none
      clause := .group (.star [' '] [' '] "path".toList)
      before := [' ']
      after := [' '] }
  opening := '"'
  source := "node:path".toList
  closing := '"'
  ending := [';']

theorem sampleStar_wellFormed : sampleStar.WellFormed where
  indent := by decide
  newline_not_mem_indent := by decide
  gap := by decide
  newline_not_mem_gap := by decide
  gap_ne_nil _ := by decide
  binding := by
    rintro binding ⟨⟩
    refine ⟨by simp, ?_, by decide, by decide, by decide⟩
    exact .group (.star (by decide) (by decide) (by decide) ⟨by decide, by decide⟩)
  opening := rfl
  source_ne_nil := by decide
  source := by simp [sampleStar, isQuote]
  closing := rfl
  ending := by simp [sampleStar, isQuote]
  length_rows := by decide

theorem statements_closed_up_star :
    statements " import  * as path from \"node:path\";\npath.sep;\n".toList =
        [⟨1, 1, "node:path".toList, [⟨"path".toList, false⟩]⟩] ∧
      statements " import* as path from \"node:path\";\npath.sep;\n".toList = [] := by
  have htext : sampleStar.text =
      importText [' '] [' ', ' '] "* as path from \"node:path\";".toList := by decide
  have hforms := sampleStar_wellFormed.forms (by simp [sampleStar, Binding.MistakesName])
  rw [Written.rows, htext] at hforms
  have hbody : ∀ row ∈ ["path.sep;".toList], opensImport (trimStart row) = false := by decide
  have hspaced : lines " import  * as path from \"node:path\";\npath.sep;\n".toList =
      pieces (importText [' '] [' ', ' '] "* as path from \"node:path\";".toList) ++
        ["path.sep;".toList] := by decide
  have hclosed : lines " import* as path from \"node:path\";\npath.sep;\n".toList =
      pieces (importText [' '] [] "* as path from \"node:path\";".toList) ++
        ["path.sep;".toList] := by decide
  obtain ⟨hread, -, hunread⟩ :=
    statements_closed_up (by decide) ⟨'*', _, rfl, .inr rfl⟩ hforms hbody hspaced hclosed
  exact ⟨hread, hunread⟩

/-- Blanks before a brace are not optional. -/
theorem statements_ne_closed_up : ¬ ∀ (indent gap rest source : List Char)
    (names : List ImportedName) (body : List (List Char)) (content closed : List Char),
    isBlankText indent = true → isBlankText gap = true → BeginsGroup rest →
      Forms (pieces (importText indent gap rest)) source names →
      (∀ row ∈ body, opensImport (trimStart row) = false) →
      lines content = pieces (importText indent gap rest) ++ body →
      lines closed = pieces (importText indent [] rest) ++ body →
      statements closed = statements content := by
  intro hall
  have hforms : Forms (pieces (importText [] [' '] "\x7b a \x7d from 'x';".toList)) ['x']
      [⟨['a'], false⟩] := by
    have hrows : pieces (importText [] [' '] "\x7b a \x7d from 'x';".toList) =
        ["import \x7b a \x7d from 'x';".toList] := by decide
    rw [hrows, forms_cons (by decide), completes_nil]
    decide +kernel
  have heq := hall [] [' '] "\x7b a \x7d from 'x';".toList ['x'] _ []
    "import \x7b a \x7d from 'x';".toList "import\x7b a \x7d from 'x';".toList rfl rfl
    ⟨'\x7b', _, rfl, .inl rfl⟩ hforms (by simp) (by decide) (by decide)
  exact absurd heq (by decide +kernel)

end Scrutiny.Imports
