import Scrutiny.Proofs.Detect.ImportRanges
import Scrutiny.Proofs.Detect.PackageImports
import Scrutiny.Proofs.Text.LineEndings

/-!
Which statements of a text the check for a package sees.  Statements are read row by row, while
the check searches the whole text.  It sees what is read as a statement of the package if blanks
stand before its quote and before the word `from`, and no quote or semicolon in its clause.
-/

namespace Scrutiny.Rules

open Text Matcher Imports

/-! ## 1. What is read as a statement -/

/-- What stands between the keyword and the quote if there is a clause. -/
def HasClause (middle : List Char) : Prop :=
  ∃ gap clause after, middle = gap ++ (clause ++ ("from".toList ++ after)) ∧
    isBlankText gap = true ∧ gap ≠ [] ∧ clause ≠ [] ∧ isBlankText after = true

/-- What stands between the keyword and the quote where a statement is read. -/
def IsMiddle (middle : List Char) : Prop :=
  isBlankText middle = true ∨ HasClause middle

/-- A module's name in quotes. -/
def IsQuoted (source text : List Char) : Prop :=
  ∃ opening closing, text = opening :: (source ++ [closing]) ∧ isQuote opening = true ∧
    isQuote closing = true ∧ Unquoted source

/-- The text begins with the keyword and the quoted source, and `middle` stands between them. -/
def IsImport (text middle source : List Char) : Prop :=
  ∃ indent quoted rest, text = indent ++ ("import".toList ++ middle ++ (quoted ++ rest)) ∧
    isBlankText indent = true ∧ IsQuoted source quoted

theorem consumes_blanks : blanks.Consumes fun part _ => isBlankText part = true :=
  (consumes_run 0 isBlank).imp fun _ _ h => by rw [h.1]; exact h.2.2

theorem consumes_someBlanks :
    someBlanks.Consumes fun part gap => part = gap ∧ isBlankText gap = true ∧ gap ≠ [] :=
  (consumes_run 1 isBlank).imp fun _ _ h => ⟨h.1, h.2.2, List.length_pos_iff.mp h.2.1⟩

theorem consumes_quotedSource :
    quotedSource.Consumes fun part source => IsQuoted source part := by
  have hlast (source : List Char) :
      (quoteMark >>= fun _ => (pure source : Matcher (List Char))).Consumes
        fun part found =>
          ∃ closing, part = [closing] ∧ isQuote closing = true ∧ found = source := by
    refine (consumes_char _).bind_pure (fun _ => source) ?_
    rintro _ closing ⟨rfl, hclosing⟩
    exact ⟨closing, rfl, hclosing, rfl⟩
  have hsource : (run 1 (fun c => c != '\'' && c != '"') >>= fun source => quoteMark >>= fun _ =>
      (pure source : Matcher (List Char))).Consumes fun part source => ∃ closing,
        part = source ++ [closing] ∧ isQuote closing = true ∧ Unquoted source := by
    refine (consumes_run 1 _).bind hlast ?_
    rintro _ source _ _ ⟨rfl, -, hchars⟩ ⟨closing, rfl, hclosing, rfl⟩
    refine ⟨closing, rfl, hclosing, fun c hc => ?_⟩
    simpa [isQuote] using List.all_eq_true.mp hchars c hc
  refine (consumes_char _).bind (fun _ => hsource) ?_
  rintro _ opening _ source ⟨rfl, hopening⟩ ⟨closing, rfl, hclosing, hunquoted⟩
  exact ⟨opening, closing, rfl, hopening, hclosing, hunquoted⟩

/-- The word `from`, maybe blanks, and the quoted source. -/
def IsOrigin (source text : List Char) : Prop :=
  ∃ after quoted, text = "from".toList ++ after ++ quoted ∧ isBlankText after = true ∧
    IsQuoted source quoted

theorem consumes_fromSource : fromSource.Consumes fun part source => IsOrigin source part := by
  have hblanks : (blanks >>= fun _ => quotedSource).Consumes fun part source => ∃ after quoted,
      part = after ++ quoted ∧ isBlankText after = true ∧ IsQuoted source quoted :=
    consumes_blanks.bind (fun _ => consumes_quotedSource)
      fun after _ quoted _ hafter hquoted => ⟨after, quoted, rfl, hafter, hquoted⟩
  have hword : (literal "from" >>= fun _ => blanks >>= fun _ => quotedSource).Consumes
      fun part source => IsOrigin source part := by
    refine (consumes_literal "from").bind (fun _ => hblanks) ?_
    rintro _ _ _ source rfl ⟨after, quoted, rfl, hafter, hquoted⟩
    exact ⟨after, quoted, (List.append_assoc _ _ _).symm, hafter, hquoted⟩
  refine (consumes_assert _).bind (fun _ => hword) ?_
  rintro _ _ _ source ⟨rfl, -⟩ h
  exact h

/-- What follows the keyword up to and with the quoted source, if it satisfies a condition. -/
def Leads (holds : List Char → Prop) (source text : List Char) : Prop :=
  ∃ middle quoted, text = middle ++ quoted ∧ holds middle ∧ IsQuoted source quoted

theorem Leads.imp {holds more : List Char → Prop} {source text : List Char}
    (h : Leads holds source text) (hmore : ∀ middle, holds middle → more middle) :
    Leads more source text := by
  obtain ⟨middle, quoted, htext, hmiddle, hquoted⟩ := h
  exact ⟨middle, quoted, htext, hmore middle hmiddle, hquoted⟩

theorem leads_clause {gap clause origin source : List Char} (hgap : isBlankText gap = true)
    (hgapNe : gap ≠ []) (hclauseNe : clause ≠ []) (horigin : IsOrigin source origin) :
    Leads HasClause source (gap ++ (clause ++ origin)) := by
  obtain ⟨after, quoted, rfl, hafter, hquoted⟩ := horigin
  exact ⟨_, quoted, by simp, ⟨gap, clause, after, rfl, hgap, hgapNe, hclauseNe, hafter⟩, hquoted⟩

-- The last of the blanks is the clause where no other one stands before the word.
theorem leads_blankClause {gap origin source : List Char} (hgap : isBlankText gap = true)
    (hlength : 2 ≤ gap.length) (horigin : IsOrigin source origin) :
    Leads HasClause source (gap ++ origin) := by
  have hne : gap ≠ [] := by
    rintro rfl
    exact absurd hlength (by decide)
  have hinit : isBlankText gap.dropLast = true :=
    List.all_eq_true.mpr fun c hc => List.all_eq_true.mp hgap c (List.dropLast_subset gap hc)
  have hinitNe : gap.dropLast ≠ [] := by
    rw [← List.length_pos_iff, List.length_dropLast]
    omega
  rw [← List.dropLast_append_getLast hne, List.append_assoc]
  exact leads_clause hinit hinitNe (List.cons_ne_nil _ _) horigin

theorem consumes_clauseThenSource :
    clauseThenSource.Consumes fun part found => Leads HasClause found.2 part := by
  have hskipped (first : Char) :
      (fromSource.upTo >>= fun found =>
        (pure (first :: trimEnd found.1, found.2) : Matcher (List Char × List Char))).Consumes
          fun part found => ∃ skipped origin, part = skipped ++ origin ∧
            IsOrigin found.2 origin := by
    refine consumes_fromSource.upTo.bind_pure
      (fun found => (first :: trimEnd found.1, found.2)) ?_
    rintro _ found ⟨origin, rfl, horigin⟩
    exact ⟨found.1, origin, rfl, horigin⟩
  have hsolid : (char (fun _ => true) >>= fun first => fromSource.upTo >>= fun found =>
      (pure (first :: trimEnd found.1, found.2) : Matcher (List Char × List Char))).Consumes
        fun part found => ∃ clause origin, part = clause ++ origin ∧ clause ≠ [] ∧
          IsOrigin found.2 origin := by
    refine (consumes_char _).bind hskipped ?_
    rintro _ first _ found ⟨rfl, -⟩ ⟨skipped, origin, rfl, horigin⟩
    exact ⟨first :: skipped, origin, rfl, List.cons_ne_nil _ _, horigin⟩
  have hblank (gap : List Char) :
      (assert (fun _ => 2 ≤ gap.length) >>= fun _ => fromSource >>= fun source =>
        (pure (gap.getLast?.toList, source) : Matcher (List Char × List Char))).Consumes
          fun part found => 2 ≤ gap.length ∧ IsOrigin found.2 part := by
    have horigin : (fromSource >>= fun source =>
        (pure (gap.getLast?.toList, source) : Matcher (List Char × List Char))).Consumes
          fun part found => IsOrigin found.2 part :=
      consumes_fromSource.bind_pure (fun source => (gap.getLast?.toList, source)) fun _ _ h => h
    refine (consumes_assert _).bind (fun _ => horigin) ?_
    rintro _ _ _ found ⟨rfl, _, hlength⟩ horigin
    exact ⟨of_decide_eq_true hlength, horigin⟩
  refine consumes_someBlanks.bind (fun gap => Consumes.either
    (hsolid.imp fun _ _ h => Or.inl h) ((hblank gap).imp fun _ _ h => Or.inr h)) ?_
  rintro gap _ _ found ⟨rfl, hgap, hgapNe⟩ (⟨clause, origin, rfl, hclauseNe, horigin⟩ | h)
  · exact leads_clause hgap hgapNe hclauseNe horigin
  · exact leads_blankClause hgap h.1 h.2

-- The mark is a part of the clause.
theorem leads_marked {gap text source : List Char} (hgap : isBlankText gap = true)
    (hgapNe : gap ≠ []) (h : Leads HasClause source text) :
    Leads HasClause source (gap ++ ("type".toList ++ text)) := by
  obtain ⟨_, quoted, rfl, ⟨inner, clause, after, rfl, -, -, -, hafter⟩, hquoted⟩ := h
  refine ⟨gap ++ ("type".toList ++ (inner ++ clause) ++ ("from".toList ++ after)), quoted,
    by simp only [List.append_assoc],
    ⟨gap, "type".toList ++ (inner ++ clause), after, rfl, hgap, hgapNe, by simp, hafter⟩, hquoted⟩

theorem consumes_clauseImport :
    clauseImport.Consumes fun part found => Leads HasClause found.2.2 part := by
  have hthen (typeOnly : Bool) : (clauseThenSource >>= fun found =>
      (pure (typeOnly, found.1, found.2) : Matcher (Bool × List Char × List Char))).Consumes
        fun part found => Leads HasClause found.2.2 part :=
    consumes_clauseThenSource.bind_pure (fun found => (typeOnly, found.1, found.2))
      fun _ _ h => h
  have hmark : (literal "type" >>= fun _ => clauseThenSource >>= fun found =>
      (pure (true, found.1, found.2) : Matcher (Bool × List Char × List Char))).Consumes
        fun part found => ∃ text, part = "type".toList ++ text ∧
          Leads HasClause found.2.2 text := by
    refine (consumes_literal "type").bind (fun _ => hthen true) ?_
    rintro _ _ text found rfl h
    exact ⟨text, rfl, h⟩
  refine Consumes.either (consumes_someBlanks.bind (fun _ => hmark) ?_) (hthen false)
  rintro gap _ _ found ⟨rfl, hgap, hgapNe⟩ ⟨text, rfl, h⟩
  exact leads_marked hgap hgapNe h

theorem consumes_bareImport : bareImport.Consumes fun part source =>
    Leads (fun middle => isBlankText middle = true) source part :=
  consumes_blanks.bind (fun _ => consumes_quotedSource)
    fun gap _ quoted _ hgap hquoted => ⟨gap, quoted, rfl, hgap, hquoted⟩

theorem consumes_statement : statement.Consumes fun part found => ∃ indent text,
    part = indent ++ ("import".toList ++ text) ∧ isBlankText indent = true ∧
      Leads IsMiddle found.1 text := by
  have hkeyword : importKeyword.Consumes fun part _ => ∃ indent,
      part = indent ++ "import".toList ∧ isBlankText indent = true := by
    refine consumes_blanks.bind (fun _ => consumes_literal "import") ?_
    rintro indent _ _ _ hindent rfl
    exact ⟨indent, rfl, hindent⟩
  have hclause : (clauseImport >>= fun found =>
      (pure (found.2.2, clauseNames found.1 found.2.1) :
        Matcher (List Char × List ImportedName))).Consumes
          fun part found => Leads IsMiddle found.1 part :=
    consumes_clauseImport.bind_pure
      (fun found => (found.2.2, clauseNames found.1 found.2.1)) fun _ _ h => h.imp fun _ => .inr
  have hbare : (bareImport >>= fun source =>
      (pure (source, []) : Matcher (List Char × List ImportedName))).Consumes
        fun part found => Leads IsMiddle found.1 part :=
    consumes_bareImport.bind_pure (fun source => (source, [])) fun _ _ h => h.imp fun _ => .inl
  refine hkeyword.bind (fun _ => hclause.either hbare) ?_
  rintro _ _ text found ⟨indent, rfl, hindent⟩ h
  exact ⟨indent, text, List.append_assoc _ _ _, hindent, h⟩

/-- A text that is read as a statement begins with the keyword and the source in quotes. -/
theorem exists_isImport {text source : List Char} {names : List ImportedName}
    (h : statement.matchStart? text = some (source, names)) :
    ∃ middle, IsMiddle middle ∧ IsImport text middle source := by
  obtain ⟨⟨found, stop⟩, hread, rfl⟩ := Option.map_eq_some_iff.mp h
  obtain ⟨part, ⟨indent, text', rfl, hindent, middle, quoted, rfl, hmiddle, hquoted⟩,
    ⟨rest, hrest⟩, -⟩ := consumes_statement _ _ _ hread
  refine ⟨middle, hmiddle, indent, quoted, rest, ?_, hindent, hquoted⟩
  rw [← show _ = text from hrest]
  simp only [List.append_assoc]

/-! ## 2. Carriage returns -/

variable {raw lead source package : List Char}

/-- An import stays one of its kind where lines in it end with a carriage return. -/
theorem IsLead.of_unreturned (h : IsLead lead) (hraw : Unreturned raw lead) : IsLead raw := by
  cases h with
  | @bare gap hgap hgapNe =>
    obtain ⟨word, gap', rfl, hword, hgap'⟩ := hraw.exists_append
    rw [hword.eq_of_newline_not_mem (by decide)]
    exact .bare (hgap'.isBlankText hgap) (hgap'.ne_nil hgapNe)
  | @call name gap inner hname hgap hinner =>
    obtain ⟨word, rest, rfl, hword, hrest⟩ := hraw.exists_append
    obtain ⟨gap', rest', rfl, hgap', hrest'⟩ := hrest.exists_append
    cases hrest' with
    | same _ hinner' =>
      have hnewline : '\n' ∉ name.toList := by
        simp only [List.mem_cons, List.not_mem_nil, or_false] at hname
        rcases hname with rfl | rfl <;> decide
      rw [hword.eq_of_newline_not_mem hnewline]
      exact .call hname (hgap'.isBlankText hgap) (hinner'.isBlankText hinner)
  | @clause keyword gap clause before after hkeyword hgap hgapNe hclause hbefore hbeforeNe hafter
      hafterNe =>
    obtain ⟨word, rest, rfl, hword, hrest⟩ := hraw.exists_append
    obtain ⟨gap', rest, rfl, hgap', hrest⟩ := hrest.exists_append
    obtain ⟨clause', rest, rfl, hclause', hrest⟩ := hrest.exists_append
    obtain ⟨before', rest, rfl, hbefore', hrest⟩ := hrest.exists_append
    obtain ⟨fromWord, after', rfl, hfrom, hafter'⟩ := hrest.exists_append
    have hnewline : '\n' ∉ keyword.toList := by
      simp only [List.mem_cons, List.not_mem_nil, or_false] at hkeyword
      rcases hkeyword with rfl | rfl <;> decide
    rw [hword.eq_of_newline_not_mem hnewline, hfrom.eq_of_newline_not_mem (by decide)]
    exact .clause hkeyword (hgap'.isBlankText hgap) (hgap'.ne_nil hgapNe)
      (hclause'.forall_mem (by decide) hclause) (hbefore'.isBlankText hbefore)
      (hbefore'.ne_nil hbeforeNe) (hafter'.isBlankText hafter) (hafter'.ne_nil hafterNe)

/-- The module is the package or stands below it. -/
def IsBelow (package source : List Char) : Prop :=
  source = package ∨ ∃ rest, source = package ++ '/' :: rest

-- The package's own name is kept if it has no newline, or the text no carriage return.
theorem IsBelow.of_unreturned (h : IsBelow package source) (hraw : Unreturned raw source)
    (hkept : '\n' ∈ package → '\r' ∉ raw) : IsBelow package raw := by
  by_cases hnewline : '\n' ∈ package
  · rwa [hraw.eq_of_return_not_mem (hkept hnewline)]
  · rcases h with rfl | ⟨rest, rfl⟩
    · exact .inl (hraw.eq_of_newline_not_mem hnewline)
    · obtain ⟨name, tail, rfl, hname, htail⟩ := hraw.exists_append
      rw [hname.eq_of_newline_not_mem hnewline]
      cases htail with
      | same _ htail => exact .inr ⟨_, rfl⟩

theorem IsBelow.isWithin (h : IsBelow package source) : IsWithin package source :=
  h.imp_right fun ⟨rest, heq⟩ => ⟨rest, .inl heq⟩

theorem IsQuoted.of_unreturned {quoted : List Char} (h : IsQuoted source quoted)
    (hraw : Unreturned raw quoted) :
    ∃ source', IsQuoted source' raw ∧ Unreturned source' source := by
  obtain ⟨opening, closing, rfl, hopening, hclosing, hunquoted⟩ := h
  have hnewline {c : Char} (hc : isQuote c = true) : '\n' ∉ [c] := by
    rw [List.mem_singleton]
    rintro rfl
    exact absurd hc (by decide)
  rw [← List.singleton_append] at hraw
  obtain ⟨first, rest, rfl, hfirst, hrest⟩ := hraw.exists_append
  obtain ⟨source', last, rfl, hsource, hlast⟩ := hrest.exists_append
  rw [hfirst.eq_of_newline_not_mem (hnewline hopening),
    hlast.eq_of_newline_not_mem (hnewline hclosing)]
  exact ⟨source', ⟨opening, closing, rfl, hopening, hclosing, hsource.forall_mem rfl hunquoted⟩,
    hsource⟩

/-! ## 3. What the check sees -/

/-- The lines that a statement stands on, with newlines between them. -/
def writtenText (content : List Char) (statement : ImportStatement) : List Char :=
  ['\n'].intercalate (((lines content).take statement.endLine).drop (statement.line - 1))

theorem IsLead.any_isWordChar_head? (h : IsLead lead) (rest : List Char) :
    (lead ++ rest).head?.any isWordChar = true := by
  cases h with
  | bare => rfl
  | call hname =>
    simp only [List.mem_cons, List.not_mem_nil, or_false] at hname
    rcases hname with rfl | rfl <;> rfl
  | clause hkeyword =>
    simp only [List.mem_cons, List.not_mem_nil, or_false] at hkeyword
    rcases hkeyword with rfl | rfl <;> rfl

-- A line's first word stands behind a newline, blanks or nothing.
theorem any_isWordChar_getLast? {front indent : List Char}
    (hfront : front = [] ∨ front.getLast? = some '\n') (hindent : isBlankText indent = true) :
    (front ++ indent).getLast?.any isWordChar = false := by
  cases hlast : (front ++ indent).getLast? with
  | none => rfl
  | some c =>
    rw [List.getLast?_append] at hlast
    cases hindentLast : indent.getLast? with
    | none =>
      rw [hindentLast, Option.none_or] at hlast
      rcases hfront with rfl | hfront
      · exact absurd hlast (by simp)
      · obtain rfl := Option.some.inj (hfront.symm.trans hlast)
        rfl
    | some d =>
      rw [hindentLast, Option.some_or] at hlast
      obtain rfl := Option.some.inj hlast
      exact isWordChar_of_isBlank (List.all_eq_true.mp hindent d (List.mem_of_getLast? hindentLast))

/-- Where some lines of a text begin with an import, the check for its package finds one. -/
theorem isSome_find?_of_isImport {content : List Char} {before rows after : List (List Char)}
    (hlines : lines content = before ++ rows ++ after) (hne : rows ≠ []) {middle : List Char}
    (himport : IsImport (['\n'].intercalate rows) middle source)
    (hlead : IsLead ("import".toList ++ middle)) {package : String}
    (hbelow : IsBelow package.toList source)
    (hkept : '\n' ∈ package.toList → '\r' ∉ content) :
    ((importOf package).find? content).isSome = true := by
  obtain ⟨indent, quoted, rest, htext, hindent, hquoted⟩ := himport
  obtain ⟨front, raw, back, rfl, hraw, hfront⟩ := exists_unreturned_rows hlines hne
  rw [htext] at hraw
  obtain ⟨indent', raw, rfl, hindent', hraw⟩ := hraw.exists_append
  obtain ⟨lead', raw, rfl, hlead', hraw⟩ := hraw.exists_append
  obtain ⟨quoted', rest', rfl, hquoted', -⟩ := hraw.exists_append
  obtain ⟨source', ⟨opening, closing, rfl, hopening, hclosing, hunquoted⟩, hsource⟩ :=
    hquoted.of_unreturned hquoted'
  have hlead := hlead.of_unreturned hlead'
  have hbelow : IsBelow package.toList source' := by
    refine hbelow.of_unreturned hsource fun hnewline hreturn => hkept hnewline ?_
    simp [hreturn]
  have hsplit :
      front ++ (indent' ++ (lead' ++ (opening :: (source' ++ [closing]) ++ rest')) ++ back) =
        (front ++ indent') ++ (lead' ++ opening :: (source' ++ closing :: (rest' ++ back))) := by
    simp
  rw [hsplit] at hkept ⊢
  refine isSome_find?_importOf rfl ?_ hlead hopening hbelow.isWithin hunquoted hclosing
  have hprevious := any_isWordChar_getLast? hfront (hindent'.isBlankText hindent)
  simp only [Cursor.isWordBoundary, Cursor.behind, Cursor.ofText, Option.or_none, List.drop_left,
    hprevious, hlead.any_isWordChar_head?]
  rfl

theorem writtenText_eq {content : List Char} {statement : ImportStatement}
    {before rows after : List (List Char)} (hlines : lines content = before ++ rows ++ after)
    (hline : statement.line = before.length + 1)
    (hend : statement.endLine = before.length + rows.length) :
    writtenText content statement = ['\n'].intercalate rows := by
  rw [writtenText, hlines, hline, hend, ← List.length_append, List.take_left, Nat.add_sub_cancel,
    List.drop_left]

/-- Every statement of a text is an import with a clause or without one, and the check for a
package sees those of the package that are written as it knows imports.  Only a name with a newline
in it may be missed, since lines lose the carriage returns at their ends. -/
theorem importOf_sees_statements (content : List Char) (package : String)
    (hkept : '\n' ∈ package.toList → '\r' ∉ content) :
    ∀ statement ∈ statements content,
      (∃ middle, IsMiddle middle ∧
        IsImport (writtenText content statement) middle statement.source) ∧
      ∀ middle, IsImport (writtenText content statement) middle statement.source →
        IsLead ("import".toList ++ middle) → IsBelow package.toList statement.source →
          ((importOf package).find? content).isSome = true := by
  intro statement hstatement
  obtain ⟨-, ⟨before, rows, after, hlines, hline, hend, hforms⟩, -⟩ :=
    (statements_placed content).1 statement hstatement
  rw [writtenText_eq hlines hline hend]
  refine ⟨exists_isImport hforms.reads, fun middle himport hlead hbelow => ?_⟩
  exact isSome_find?_of_isImport hlines hforms.ne_nil himport hlead hbelow hkept

/-- A statement on three lines that end with carriage returns. -/
def wrappedText : List Char :=
  "import \x7b\r\n  debounce,\r\n\x7d from 'lodash/fp';\r\n".toList

def wrappedStatement : ImportStatement :=
  ⟨1, 3, "lodash/fp".toList, [⟨"debounce".toList, false⟩]⟩

theorem importOf_sees_statements_wrappedText :
    ('\n' ∈ "lodash".toList → '\r' ∉ wrappedText) ∧ wrappedStatement ∈ statements wrappedText ∧
      IsBelow "lodash".toList wrappedStatement.source ∧
      ((importOf "lodash").find? wrappedText).isSome = true := by
  have hkept : '\n' ∈ "lodash".toList → '\r' ∉ wrappedText := by decide
  have hmem : wrappedStatement ∈ statements wrappedText := by decide +kernel
  have himport : IsImport (writtenText wrappedText wrappedStatement)
      " \x7b\n  debounce,\n\x7d from ".toList wrappedStatement.source := by
    refine ⟨[], "'lodash/fp'".toList, ";".toList, by decide, rfl, '\'', '\'', rfl, rfl, rfl, ?_⟩
    decide
  have hlead : IsLead ("import".toList ++ " \x7b\n  debounce,\n\x7d from ".toList) := by
    have hchars : ∀ c ∈ "\x7b\n  debounce,\n\x7d".toList, isQuote c = false ∧ c ≠ ';' := by
      simp [isQuote]
    have hblank : isBlankText " ".toList = true := rfl
    have hkeyword : "import" ∈ ["import", "export"] := List.mem_cons_self
    exact .clause hkeyword hblank (by decide) hchars hblank (by decide) hblank (by decide)
  have hbelow : IsBelow "lodash".toList wrappedStatement.source := .inr ⟨"fp".toList, by decide⟩
  exact ⟨hkept, hmem, hbelow, (importOf_sees_statements wrappedText "lodash" hkept _ hmem).2 _
    himport hlead hbelow⟩

/-- The check misses a statement of its package with no blank behind the word `from`. -/
theorem importOf_misses_statement : ¬ ∀ (content : List Char) (package : String),
    Unquoted package.toList → ∀ statement ∈ statements content,
      IsBelow package.toList statement.source →
        ((importOf package).find? content).isSome = true := by
  intro h
  have hmem : (⟨1, 1, "moment".toList, [⟨"moment".toList, false⟩]⟩ : ImportStatement) ∈
      statements "import moment from'moment';".toList := by decide +kernel
  have hsome := h _ "moment" (by decide) _ hmem (.inl rfl)
  exact absurd hsome (by decide)

end Scrutiny.Rules
