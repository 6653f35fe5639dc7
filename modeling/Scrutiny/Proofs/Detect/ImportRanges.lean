import Scrutiny.Proofs.Detect.ImportRows

/-!
Where the statements of a text stand, however malformed it is.  A statement is what rows form that
are read as one while fewer of them are not; the statements of a text are cut out of its rows from
the top, and a row outside them begins none.
-/

namespace Scrutiny.Imports

open Text Matcher

variable {source : List Char} {names : List ImportedName}

/-! ## 1. Rows that form a statement -/

/-- The rows form a statement with that source and those names: the first of them, and no other,
opens an import, only the last may hold a semicolon, and none but all of them together are read. -/
structure Forms (rows : List (List Char)) (source : List Char) (names : List ImportedName) :
    Prop where
  ne_nil : rows ≠ []
  length_le : rows.length ≤ mostLines
  opens : ∀ row ∈ rows.head?, opensImport (trimStart row) = true
  opens_once : ∀ row ∈ rows.tail, opensImport (trimStart row) = false
  semicolon : ∀ row ∈ rows.dropLast, ';' ∉ row
  reads : statement.matchStart? (['\n'].intercalate rows) = some (source, names)
  unread : ∀ front, front <+: rows → front ≠ rows →
    statement.matchStart? (['\n'].intercalate front) = none

/-- What follows the last newline of a text. -/
def lastRow (text : List Char) : List Char :=
  (text.reverse.takeWhile (· != '\n')).reverse

theorem bne_newline_of_not_mem {row : List Char} (h : '\n' ∉ row) :
    ∀ c ∈ row.reverse, (c != '\n') = true := by
  intro c hc
  rw [bne_iff_ne]
  rintro rfl
  exact h (List.mem_reverse.mp hc)

theorem lastRow_append {row : List Char} (h : '\n' ∉ row) (text : List Char) :
    lastRow (text ++ '\n' :: row) = row := by
  rw [lastRow, List.reverse_append, List.reverse_cons, List.append_assoc, List.singleton_append,
    List.takeWhile_append_of_pos (bne_newline_of_not_mem h)]
  simp

theorem lastRow_of_not_mem {row : List Char} (h : '\n' ∉ row) : lastRow row = row := by
  rw [lastRow, List.takeWhile_eq_self_iff.mpr (bne_newline_of_not_mem h), List.reverse_reverse]

/-- The rows complete a text, which need not be a single row, to a statement. -/
structure Completes (text : List Char) (rows : List (List Char)) (source : List Char)
    (names : List ImportedName) : Prop where
  opens_none : ∀ row ∈ rows, opensImport (trimStart row) = false
  semicolon : ∀ row ∈ (lastRow text :: rows).dropLast, ';' ∉ row
  reads : statement.matchStart? (['\n'].intercalate (text :: rows)) = some (source, names)
  unread : ∀ front, front <+: rows → front ≠ rows →
    statement.matchStart? (['\n'].intercalate (text :: front)) = none

theorem completes_nil {text : List Char} :
    Completes text [] source names ↔ statement.matchStart? text = some (source, names) := by
  constructor
  · intro h
    simpa using h.reads
  · intro h
    refine ⟨by simp, by simp, by simpa using h, fun front hfront hne => ?_⟩
    exact absurd (List.prefix_nil.mp hfront) hne

theorem completes_cons {text row : List Char} {rows : List (List Char)} (hrow : '\n' ∉ row) :
    Completes text (row :: rows) source names ↔
      statement.matchStart? text = none ∧ ';' ∉ lastRow text ∧
        opensImport (trimStart row) = false ∧
        Completes (text ++ '\n' :: row) rows source names := by
  constructor
  · intro h
    obtain ⟨hopens, hmore⟩ := List.forall_mem_cons.mp h.opens_none
    have hsemicolon := h.semicolon
    rw [List.dropLast_cons_cons, List.forall_mem_cons] at hsemicolon
    have htext := h.unread [] List.nil_prefix (List.cons_ne_nil row rows).symm
    rw [List.intercalate_singleton] at htext
    refine ⟨htext, hsemicolon.1, hopens, hmore, ?_, ?_, fun front hfront hne => ?_⟩
    · rw [lastRow_append hrow]
      exact hsemicolon.2
    · rw [intercalate_joined]
      exact h.reads
    · rw [intercalate_joined]
      exact h.unread (row :: front) ((List.prefix_cons_inj row).mpr hfront) (by simpa using hne)
  · rintro ⟨htext, hsemicolon, hopens, h⟩
    have hrest := h.semicolon
    rw [lastRow_append hrow] at hrest
    refine ⟨List.forall_mem_cons.mpr ⟨hopens, h.opens_none⟩, ?_, ?_, fun front hfront hne => ?_⟩
    · rw [List.dropLast_cons_cons]
      exact List.forall_mem_cons.mpr ⟨hsemicolon, hrest⟩
    · rw [← intercalate_joined]
      exact h.reads
    · cases front with
      | nil => rwa [List.intercalate_singleton]
      | cons first front =>
        obtain ⟨rfl, hprefix⟩ := List.cons_prefix_cons.mp hfront
        rw [← intercalate_joined]
        exact h.unread front hprefix (by simpa using hne)

theorem forms_cons {row : List Char} {rows : List (List Char)} (hrow : '\n' ∉ row) :
    Forms (row :: rows) source names ↔
      opensImport (trimStart row) = true ∧ rows.length ≤ mostLines - 1 ∧
        Completes row rows source names := by
  have hheight : (row :: rows).length ≤ mostLines ↔ rows.length ≤ mostLines - 1 :=
    Nat.add_one_le_iff.trans (Nat.lt_iff_le_pred (by decide))
  constructor
  · intro h
    refine ⟨h.opens row rfl, hheight.mp h.length_le, h.opens_once, ?_, h.reads, ?_⟩
    · rw [lastRow_of_not_mem hrow]
      exact h.semicolon
    · intro front hfront hne
      exact h.unread (row :: front) ((List.prefix_cons_inj row).mpr hfront) (by simpa using hne)
  · rintro ⟨hopens, hlength, h⟩
    have hsemicolon := h.semicolon
    rw [lastRow_of_not_mem hrow] at hsemicolon
    refine ⟨List.cons_ne_nil row rows, hheight.mpr hlength, by simpa using hopens, h.opens_none,
      hsemicolon, h.reads, fun front hfront hne => ?_⟩
    cases front with
    | nil => decide
    | cons first front =>
      obtain ⟨rfl, hprefix⟩ := List.cons_prefix_cons.mp hfront
      exact h.unread front hprefix (by simpa using hne)

/-! ## 2. Reading on -/

theorem contains_semicolon_iff {text : List Char} :
    (text.reverse.takeWhile (· != '\n')).contains ';' = true ↔ ';' ∈ lastRow text := by
  rw [List.contains_iff_mem, lastRow, List.mem_reverse]

-- A text that is not read needs a row that may be put to it.
theorem Completes.exists_cons {text : List Char} {rows : List (List Char)}
    (h : Completes text rows source names) (hrows : ∀ row ∈ rows, '\n' ∉ row)
    (hread : statement.matchStart? text = none) :
    ∃ row rest, rows = row :: rest ∧ ';' ∉ lastRow text ∧
      opensImport (trimStart row) = false ∧ Completes (text ++ '\n' :: row) rest source names := by
  cases rows with
  | nil => exact absurd (completes_nil.mp h) (by simp [hread])
  | cons row rest =>
    have hrow := hrows row List.mem_cons_self
    exact ⟨row, rest, rfl, ((completes_cons hrow).mp h).2⟩

/-- Reading on takes the rows that complete the text to a statement, and fails if there are none
among those that it may take. -/
theorem readStatement?_eq_some_iff {more taken : Nat} {text : List Char}
    {following : List (List Char)} (hrows : ∀ row ∈ following, '\n' ∉ row) :
    readStatement? more text following = some (taken, source, names) ↔
      taken ≤ more ∧ ∃ rows back, following = rows ++ back ∧ rows.length = taken ∧
        Completes text rows source names := by
  fun_induction readStatement? more text following generalizing taken with
  | case1 more text following found names' hread =>
    constructor
    · intro h
      obtain ⟨rfl, rfl, rfl⟩ : 0 = taken ∧ found = source ∧ names' = names := by simpa using h
      exact ⟨Nat.zero_le _, [], following, rfl, rfl, completes_nil.mpr hread⟩
    · rintro ⟨-, rows, back, rfl, rfl, h⟩
      cases rows with
      | nil => simpa [hread] using completes_nil.mp h
      | cons row rows =>
        have hnone := ((completes_cons (hrows row (by simp))).mp h).1
        simp [hread] at hnone
  | case2 text hread more line following hend =>
    refine iff_of_false (by simp) ?_
    rintro ⟨-, rows, back, hfollowing, -, h⟩
    rw [hfollowing, List.forall_mem_append] at hrows
    obtain ⟨row, rest, rfl, hsemicolon, hopens, -⟩ := h.exists_cons hrows.1 hread
    obtain ⟨rfl, -⟩ := List.cons.inj hfollowing
    rw [Bool.or_eq_true, contains_semicolon_iff, hopens] at hend
    exact hend.elim hsemicolon Bool.false_ne_true
  | case3 text hread more line following hend ih =>
    rw [Bool.or_eq_true, contains_semicolon_iff, not_or, Bool.not_eq_true] at hend
    obtain ⟨hline, hfollowing⟩ := List.forall_mem_cons.mp hrows
    constructor
    · intro h
      obtain ⟨⟨further, found⟩, hfurther, heq⟩ := Option.map_eq_some_iff.mp h
      obtain ⟨rfl, rfl⟩ := Prod.mk.inj heq
      obtain ⟨hmore, rows, back, rfl, rfl, hrest⟩ := (ih hfollowing).mp hfurther
      exact ⟨Nat.succ_le_succ hmore, line :: rows, back, rfl, rfl,
        (completes_cons hline).mpr ⟨hread, hend.1, hend.2, hrest⟩⟩
    · rintro ⟨hmore, rows, back, heq, rfl, h⟩
      rw [heq, List.forall_mem_append] at hrows
      obtain ⟨row, rest, rfl, -, -, hrest⟩ := h.exists_cons hrows.1 hread
      obtain ⟨rfl, rfl⟩ := List.cons.inj heq
      have hread := (ih hfollowing).mpr ⟨Nat.le_of_succ_le_succ hmore, rest, back, rfl, rfl, hrest⟩
      rw [hread]
      rfl
  | case4 more text following hread hshort =>
    refine iff_of_false (by simp) ?_
    rintro ⟨hmore, rows, back, rfl, rfl, h⟩
    obtain ⟨row, rest, rfl, -⟩ := h.exists_cons (List.forall_mem_append.mp hrows).1 hread
    obtain ⟨less, rfl⟩ := Nat.exists_eq_add_of_le' hmore
    exact hshort _ row _ rfl rfl

/-- Where rows form a statement, reading from the first of them finds one. -/
theorem exists_readStatement?_of_forms {line : List Char} {following : List (List Char)}
    (hrows : ∀ row ∈ line :: following, '\n' ∉ row) {count : Nat}
    (h : Forms ((line :: following).take count) source names) :
    opensImport (trimStart line) = true ∧
      ∃ taken, readStatement? (mostLines - 1) line following = some (taken, source, names) := by
  obtain ⟨hline, hfollowing⟩ := List.forall_mem_cons.mp hrows
  cases count with
  | zero => exact absurd rfl h.ne_nil
  | succ count =>
    rw [List.take_succ_cons, forms_cons hline] at h
    obtain ⟨hopens, hlength, hcompletes⟩ := h
    refine ⟨hopens, _, (readStatement?_eq_some_iff hfollowing).mpr ⟨hlength, ?_⟩⟩
    exact ⟨following.take count, following.drop count, (List.take_append_drop _ _).symm, rfl,
      hcompletes⟩

/-! ## 3. Ranges -/

/-- The rows, the first of which has the given number, are those of the statements and others that
none begins with. -/
inductive Ranges : Nat → List (List Char) → List ImportStatement → Prop
  | nil (number : Nat) : Ranges number [] []
  | other {number : Nat} {row : List Char} {rows : List (List Char)} {found : List ImportStatement}
      (hrow : ∀ count source names, ¬ Forms ((row :: rows).take count) source names)
      (hrows : Ranges (number + 1) rows found) : Ranges number (row :: rows) found
  | statement {number : Nat} {front back : List (List Char)} {source : List Char}
      {names : List ImportedName} {found : List ImportStatement} (hfront : Forms front source names)
      (hback : Ranges (number + front.length) back found) :
      Ranges number (front ++ back)
        (⟨number, number + front.length - 1, source, names⟩ :: found)

/-- The statements of rows are cut out of them from the top. -/
theorem ranges_statementsFrom (number : Nat) {rows : List (List Char)}
    (hrows : ∀ row ∈ rows, '\n' ∉ row) : Ranges number rows (statementsFrom number rows) := by
  fun_induction statementsFrom number rows with
  | case1 number => exact .nil number
  | case2 number line following hopens taken source names hread ih =>
    obtain ⟨hline, hfollowing⟩ := List.forall_mem_cons.mp hrows
    obtain ⟨hmore, rows, back, rfl, rfl, h⟩ := (readStatement?_eq_some_iff hfollowing).mp hread
    have hback := ih fun row hrow => hfollowing row (List.mem_of_mem_drop hrow)
    rw [List.drop_left] at hback ⊢
    have hforms : Forms (line :: rows) source names := (forms_cons hline).mpr ⟨hopens, hmore, h⟩
    exact .statement hforms hback
  | case3 number line following hopens hread ih =>
    refine .other (fun count source names h => ?_) (ih (List.forall_mem_cons.mp hrows).2)
    obtain ⟨-, taken, hsome⟩ := exists_readStatement?_of_forms hrows h
    simp [hread] at hsome
  | case4 number line following hopens ih =>
    refine .other (fun count source names h => ?_) (ih (List.forall_mem_cons.mp hrows).2)
    exact hopens (exists_readStatement?_of_forms hrows h).1

namespace Ranges

variable {number : Nat} {rows : List (List Char)} {found : List ImportStatement}

theorem exists_forms (h : Ranges number rows found) : ∀ statement ∈ found,
    ∃ before front back, rows = before ++ front ++ back ∧
      statement.line = number + before.length ∧
      statement.endLine + 1 = statement.line + front.length ∧
      Forms front statement.source statement.names := by
  induction h with
  | nil => simp
  | @other number row rows found _ _ ih =>
    intro statement hstatement
    obtain ⟨before, front, back, rfl, hline, hend, hforms⟩ := ih statement hstatement
    refine ⟨row :: before, front, back, rfl, ?_, hend, hforms⟩
    rw [hline, List.length_cons]
    omega
  | @statement number first rest source names found hfirst _ ih =>
    have hpos := List.length_pos_iff.mpr hfirst.ne_nil
    rw [List.forall_mem_cons]
    refine ⟨⟨[], first, rest, rfl, rfl, by dsimp only; omega, hfirst⟩, ?_⟩
    intro statement hstatement
    obtain ⟨before, front, back, rfl, hline, hend, hforms⟩ := ih statement hstatement
    refine ⟨first ++ before, front, back, by simp only [List.append_assoc], ?_, hend, hforms⟩
    rw [hline, List.length_append, Nat.add_assoc]

theorem pairwise (h : Ranges number rows found) :
    found.Pairwise fun first second => first.endLine < second.line := by
  induction h with
  | nil => exact .nil
  | other _ _ ih => exact ih
  | statement hfirst hrest ih =>
    have hpos := List.length_pos_iff.mpr hfirst.ne_nil
    refine .cons (fun second hsecond => ?_) ih
    obtain ⟨before, front, back, -, hline, -⟩ := hrest.exists_forms second hsecond
    dsimp only
    omega

theorem line_le_endLine (h : Ranges number rows found) {statement : ImportStatement}
    (hstatement : statement ∈ found) : statement.line ≤ statement.endLine := by
  obtain ⟨before, front, back, -, -, hend, hforms⟩ := h.exists_forms statement hstatement
  have hpos := List.length_pos_iff.mpr hforms.ne_nil
  omega

theorem pairwise_line (h : Ranges number rows found) :
    found.Pairwise fun first second => first.line < second.line :=
  h.pairwise.imp_of_mem fun hfirst _ hbehind =>
    Nat.lt_of_le_of_lt (h.line_le_endLine hfirst) hbehind

/-- No statement begins with a row that is part of none. -/
theorem not_forms (h : Ranges number rows found) {before front back : List (List Char)}
    (hsplit : rows = before ++ front ++ back)
    (hnone : ∀ statement ∈ found,
      ImportStatement.covers statement (number + before.length) = false) :
    ¬ Forms front source names := by
  induction h generalizing before with
  | nil =>
    intro hforms
    have hfront : front = [] := by simp_all
    exact hforms.ne_nil hfront
  | @other number row rows found hrow _ ih =>
    cases before with
    | nil =>
      have := hrow front.length source names
      rwa [hsplit, List.nil_append, List.take_left] at this
    | cons first before =>
      obtain ⟨rfl, rfl⟩ := List.cons.inj hsplit
      refine ih rfl fun statement hstatement => ?_
      have := hnone statement hstatement
      rwa [List.length_cons, Nat.add_comm before.length, ← Nat.add_assoc] at this
  | @statement number first rest source names found hfirst _ ih =>
    obtain ⟨hfirstNone, hnone⟩ := List.forall_mem_cons.mp hnone
    -- the row lies behind the first statement
    have hpos := List.length_pos_iff.mpr hfirst.ne_nil
    have hlength : first.length ≤ before.length := by
      simp only [ImportStatement.covers, Bool.and_eq_false_iff, decide_eq_false_iff_not]
        at hfirstNone
      omega
    rw [List.append_assoc] at hsplit
    obtain ⟨between, rfl⟩ : first <+: before :=
      List.prefix_of_prefix_length_le ⟨rest, rfl⟩ ⟨front ++ back, hsplit.symm⟩ hlength
    rw [List.append_assoc, ← List.append_assoc between] at hsplit
    have hrest := List.append_cancel_left hsplit
    refine ih hrest fun statement hstatement => ?_
    have := hnone statement hstatement
    rwa [List.length_append, ← Nat.add_assoc] at this

-- No statement is formed by more of the rows than another that begins with the same row.
theorem eq_of_forms {front front' : List (List Char)} {source' : List Char}
    {names' : List ImportedName} (h : Forms front source names) (h' : Forms front' source' names')
    (hfront : front <+: rows) (hfront' : front' <+: rows) :
    front = front' ∧ source = source' ∧ names = names' := by
  have heq : front = front' := by
    by_contra hne
    rcases List.prefix_or_prefix_of_prefix hfront hfront' with hprefix | hprefix
    · simpa [h.reads] using h'.unread front hprefix hne
    · simpa [h'.reads] using h.unread front' hprefix (Ne.symm hne)
  subst heq
  simpa using h.reads.symm.trans h'.reads

/-- Rows hold the same statements however they are cut. -/
theorem unique (h : Ranges number rows found) {others : List ImportStatement}
    (h' : Ranges number rows others) : found = others := by
  induction h generalizing others with
  | nil number =>
    generalize hrows : ([] : List (List Char)) = rows at h'
    cases h' with
    | nil => rfl
    | other => simp at hrows
    | statement hfront => exact absurd (List.append_eq_nil_iff.mp hrows.symm).1 hfront.ne_nil
  | @other number row rows found hrow _ ih =>
    generalize hrows : row :: rows = all at h'
    cases h' with
    | nil => simp at hrows
    | other _ hrest =>
      obtain ⟨rfl, rfl⟩ := List.cons.inj hrows
      exact ih hrest
    | @statement _ front back source names _ hfront =>
      have hnone := hrow front.length source names
      rw [hrows, List.take_left] at hnone
      exact absurd hfront hnone
  | @statement number front back source names found hfront _ ih =>
    generalize hrows : front ++ back = all at h'
    cases h' with
    | nil => exact absurd (List.append_eq_nil_iff.mp hrows).1 hfront.ne_nil
    | other hrow =>
      have hnone := hrow front.length source names
      rw [← hrows, List.take_left] at hnone
      exact absurd hfront hnone
    | @statement _ front' back' _ _ _ hfront' hback' =>
      obtain ⟨rfl, rfl, rfl⟩ := eq_of_forms hfront hfront' ⟨back, hrows⟩ ⟨back', rfl⟩
      obtain rfl := List.append_cancel_left hrows
      rw [ih hback']

end Ranges

/-! ## 4. The statements of a text -/

theorem isIdentifier_of_bracedName {typeOnly : Bool} {item : List Char} {bound : ImportedName}
    (h : bracedName typeOnly item = some bound) : isIdentifier bound.name = true := by
  obtain ⟨hname, hbound⟩ := Option.ite_none_right_eq_some.mp h
  rw [← Option.some.inj hbound]
  exact hname

theorem isIdentifier_of_plainName {typeOnly : Bool} {part : List Char} {bound : ImportedName}
    (h : plainName typeOnly part = some bound) : isIdentifier bound.name = true := by
  obtain ⟨hname, hbound⟩ := Option.ite_none_right_eq_some.mp h
  rw [← Option.some.inj hbound]
  exact hname

theorem isIdentifier_of_mem_clauseNames {typeOnly : Bool} {clause : List Char}
    {bound : ImportedName} (h : bound ∈ clauseNames typeOnly clause) :
    isIdentifier bound.name = true := by
  have hplain {parts : List (List Char)} (h : bound ∈ parts.filterMap (plainName typeOnly)) :
      isIdentifier bound.name = true := by
    obtain ⟨part, -, hpart⟩ := List.mem_filterMap.mp h
    exact isIdentifier_of_plainName hpart
  rw [clauseNames] at h
  split at h
  next =>
    rcases List.mem_append.mp h with h | h
    · obtain ⟨item, -, hitem⟩ := List.mem_filterMap.mp h
      exact isIdentifier_of_bracedName hitem
    · exact hplain h
  next => exact hplain h

/-- A statement that is read binds nothing but identifiers. -/
theorem isIdentifier_of_matchStart? {text : List Char}
    (h : statement.matchStart? text = some (source, names)) :
    ∀ bound ∈ names, isIdentifier bound.name = true := by
  obtain ⟨⟨found, stop⟩, hread, rfl⟩ := Option.map_eq_some_iff.mp h
  obtain ⟨_, -, hrest⟩ := Option.bind_eq_some_iff.mp hread
  rcases Option.or_eq_some_iff.mp hrest with hclause | ⟨-, hbare⟩
  · obtain ⟨⟨⟨typeOnly, clause, origin⟩, after⟩, -, hpure⟩ := Option.bind_eq_some_iff.mp hclause
    cases Option.some.inj hpure
    exact fun bound hbound => isIdentifier_of_mem_clauseNames hbound
  · obtain ⟨⟨origin, after⟩, -, hpure⟩ := Option.bind_eq_some_iff.mp hbare
    cases Option.some.inj hpure
    simp

theorem ranges_statements (content : List Char) : Ranges 1 (lines content) (statements content) :=
  ranges_statementsFrom 1 (newline_not_mem_lines content)

/-- The statements of a text are the only ones that its rows can be cut into. -/
theorem statements_eq_iff {content : List Char} {found : List ImportStatement} :
    statements content = found ↔ Ranges 1 (lines content) found := by
  constructor
  · rintro rfl
    exact ranges_statements content
  · exact (ranges_statements content).unique

/-- Every statement of a text stands on rows that form it and begins behind the one before it, and
no rows that begin outside the statements form one. -/
theorem statements_placed (content : List Char) :
    (∀ statement ∈ statements content,
      (1 ≤ statement.line ∧ statement.line ≤ statement.endLine ∧
        statement.endLine ≤ (lines content).length ∧
        statement.endLine - statement.line < mostLines) ∧
      (∃ before front back, lines content = before ++ front ++ back ∧
        statement.line = before.length + 1 ∧ statement.endLine = before.length + front.length ∧
        Forms front statement.source statement.names) ∧
      ∀ bound ∈ statement.names, isIdentifier bound.name = true) ∧
    (statements content).Pairwise (fun first second => first.endLine < second.line) ∧
    ∀ before front back source names, lines content = before ++ front ++ back →
      (∀ statement ∈ statements content,
        ImportStatement.covers statement (before.length + 1) = false) →
      ¬ Forms front source names := by
  have hranges := ranges_statements content
  refine ⟨fun statement hstatement => ?_, hranges.pairwise, ?_⟩
  · obtain ⟨before, front, back, hsplit, hline, hend, hforms⟩ :=
      hranges.exists_forms statement hstatement
    have hpos := List.length_pos_iff.mpr hforms.ne_nil
    have hmost := hforms.length_le
    have hlength := congrArg List.length hsplit
    simp only [List.length_append] at hlength
    refine ⟨by omega, ⟨before, front, back, hsplit, by omega, by omega, hforms⟩, ?_⟩
    exact isIdentifier_of_matchStart? hforms.reads
  · intro before front back source names hsplit hnone
    refine hranges.not_forms hsplit fun statement hstatement => ?_
    rw [Nat.add_comm]
    exact hnone statement hstatement

end Scrutiny.Imports
