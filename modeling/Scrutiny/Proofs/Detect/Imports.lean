import Scrutiny.Proofs.Detect.UnusedNames

/-!
The imports of a text that begins with them, and those of their names that the rest of the text
does not use.
-/

namespace Scrutiny.Imports

open Text

/-! ## 1. The statements of a text -/

/-- The statements that written ones are, the first of which begins on the given line. -/
def placed (number : Nat) : List Written → List ImportStatement
  | [] => []
  | written :: more =>
      ⟨number, number + written.rows.length - 1, written.source, written.names⟩ ::
        placed (number + written.rows.length) more

theorem statementsFrom_eq_nil {body : List (List Char)}
    (hbody : ∀ line ∈ body, opensImport (trimStart line) = false) (number : Nat) :
    statementsFrom number body = [] := by
  induction body generalizing number with
  | nil => rw [statementsFrom]
  | cons line body ih =>
    rw [statementsFrom, if_neg (by simp [hbody line List.mem_cons_self])]
    exact ih (fun other hother => hbody other (List.mem_cons_of_mem _ hother)) _

theorem statementsFrom_append {written : List Written} {body : List (List Char)}
    (hwritten : ∀ one ∈ written, one.WellFormed)
    (hmistake : ∀ one ∈ written, ∀ binding ∈ one.binding, ¬ binding.MistakesName)
    (hbody : ∀ line ∈ body, opensImport (trimStart line) = false) (number : Nat) :
    statementsFrom number (written.flatMap Written.rows ++ body) = placed number written := by
  induction written generalizing number with
  | nil => exact statementsFrom_eq_nil hbody number
  | cons first written ih =>
    have hfirst := hwritten first List.mem_cons_self
    obtain ⟨row, rest, hrows, hopens, hrest⟩ := hfirst.exists_rows
    have hlength : rest.length ≤ mostLines - 1 := by
      have hheight := hfirst.length_rows
      rw [← Written.rows, hrows, List.length_cons] at hheight
      exact Nat.le_sub_one_of_lt hheight
    have hread : statement.matchStart? (['\n'].intercalate (row :: rest)) =
        some (first.source, first.names) := by
      rw [← hrows, Written.rows, intercalate_pieces]
      exact hfirst.matchStart?_text (hmistake first List.mem_cons_self)
    have hchars := hfirst.isClauseChar_rows
    rw [hrows] at hchars
    have htaken := readStatement?_rows hlength hread hchars hrest
      (written.flatMap Written.rows ++ body)
    have hmore := ih (fun one hone => hwritten one (List.mem_cons_of_mem _ hone))
      (fun one hone => hmistake one (List.mem_cons_of_mem _ hone)) (number + first.rows.length)
    rw [hrows, List.length_cons, ← Nat.add_assoc] at hmore
    rw [List.flatMap_cons, List.append_assoc, hrows, List.cons_append, statementsFrom,
      if_pos hopens, htaken, placed, hrows, List.length_cons, ← Nat.add_assoc, ← hmore]
    simp only [List.drop_left, Nat.add_sub_cancel]

/-! ## 2. The lines outside the statements -/

variable {written : List Written} {body : List (List Char)} {content : List Char}

theorem exists_covers_placed (hwritten : ∀ one ∈ written, one.WellFormed) (number line : Nat) :
    (∃ statement ∈ placed number written, ImportStatement.covers statement line = true) ↔
      number ≤ line ∧ line < number + (written.flatMap Written.rows).length := by
  induction written generalizing number with
  | nil =>
    refine iff_of_false (by simp [placed]) ?_
    rw [List.flatMap_nil, List.length_nil]
    omega
  | cons first written ih =>
    have hheight : 1 ≤ first.rows.length :=
      List.length_pos_iff.mpr (pieces_ne_nil first.text)
    have hmore := ih (fun one hone => hwritten one (List.mem_cons_of_mem _ hone))
      (number + first.rows.length)
    rw [placed, List.exists_mem_cons_iff, hmore, List.flatMap_cons, List.length_append,
      ImportStatement.covers, Bool.and_eq_true, decide_eq_true_iff, decide_eq_true_iff]
    dsimp only
    omega

theorem bodyLines_placed (hwritten : ∀ one ∈ written, one.WellFormed)
    (hlines : lines content = written.flatMap Written.rows ++ body) :
    bodyLines content (placed 1 written) = body := by
  have hany (line : Nat) :
      ((placed 1 written).any fun statement => ImportStatement.covers statement line) = true ↔
        1 ≤ line ∧ line < 1 + (written.flatMap Written.rows).length := by
    rw [List.any_eq_true]
    exact exists_covers_placed hwritten 1 line
  have hfront : ((numbered (written.flatMap Written.rows)).filter fun item =>
      !(placed 1 written).any fun statement => ImportStatement.covers statement item.1) = [] := by
    rw [List.filter_eq_nil_iff]
    intro item hitem
    have hcovered := (hany item.1).mpr (by have := mem_numbered hitem; omega)
    simp [hcovered]
  have hback : (((numbered body).map fun item =>
      ((written.flatMap Written.rows).length + item.1, item.2)).filter fun item =>
        !(placed 1 written).any fun statement => ImportStatement.covers statement item.1) =
      (numbered body).map fun item =>
        ((written.flatMap Written.rows).length + item.1, item.2) := by
    rw [List.filter_eq_self]
    intro item hitem
    obtain ⟨inner, hinner, rfl⟩ := List.mem_map.mp hitem
    have hbounds := mem_numbered hinner
    have hnot : ¬ ((placed 1 written).any fun statement => ImportStatement.covers statement
        ((written.flatMap Written.rows).length + inner.1)) = true := by
      rw [hany]
      omega
    simpa using hnot
  change (((numbered (lines content)).filter fun item =>
    !(placed 1 written).any fun statement =>
      ImportStatement.covers statement item.1).map Prod.snd) = body
  rw [hlines, numbered_append, List.filter_append, hfront, hback, List.nil_append, List.map_map]
  exact map_snd_numbered body

/-! ## 3. Unused names -/

theorem Clause.WellFormed.isName_of_mem_names {clause : Clause} (h : clause.WellFormed)
    {typeOnly : Bool} {bound : ImportedName} (hbound : bound ∈ clause.names typeOnly) :
    IsName bound.name := by
  have hitems {items : List Listed} (hitems : ∀ listed ∈ items, listed.WellFormed)
      (hbound : bound ∈ items.map (Listed.bound typeOnly)) : IsName bound.name := by
    obtain ⟨listed, hlisted, rfl⟩ := List.mem_map.mp hbound
    exact (hitems listed hlisted).item.isName_bound
  cases h with
  | default isName =>
    rw [List.mem_singleton.mp hbound]
    exact isName
  | group wellFormed =>
    cases wellFormed with
    | braces wellFormed _ => exact hitems wellFormed hbound
    | star _ _ _ isName =>
      rw [List.mem_singleton.mp hbound]
      exact isName
  | both isName _ _ wellFormed =>
    cases wellFormed with
    | braces wellFormed _ =>
      rcases List.mem_append.mp hbound with hbound | hbound
      · exact hitems wellFormed hbound
      · rw [List.mem_singleton.mp hbound]
        exact isName
    | star _ _ _ isBound =>
      rcases List.mem_cons.mp hbound with rfl | hbound
      · exact isName
      · rw [List.mem_singleton.mp hbound]
        exact isBound

theorem Written.WellFormed.isName_of_mem_names {one : Written} (h : one.WellFormed)
    {bound : ImportedName} (hbound : bound ∈ one.names) : IsName bound.name := by
  rw [Written.names] at hbound
  cases hbinding : one.binding with
  | none => simp [hbinding] at hbound
  | some binding =>
    rw [hbinding] at hbound
    exact (h.binding binding hbinding).clause.isName_of_mem_names hbound

theorem isName_of_binds (hwritten : ∀ one ∈ written, one.WellFormed) {number : Nat}
    {statement : ImportStatement} (hstatement : statement ∈ placed number written)
    {name : List Char} (hbinds : binds name statement = true) : IsName name := by
  induction written generalizing number with
  | nil => exact absurd hstatement List.not_mem_nil
  | cons first written ih =>
    rcases List.mem_cons.mp hstatement with rfl | hstatement
    · obtain ⟨bound, hbound, hname⟩ := List.any_eq_true.mp hbinds
      rw [← eq_of_beq hname]
      exact (hwritten first List.mem_cons_self).isName_of_mem_names hbound
    · exact ih (fun one hone => hwritten one (List.mem_cons_of_mem _ hone)) hstatement

section Unused

variable {name : List Char}

theorem isIdentifier_of_mem_placed (hwritten : ∀ one ∈ written, one.WellFormed) {number : Nat} :
    ∀ statement ∈ placed number written, ∀ bound ∈ statement.names,
      isIdentifier bound.name = true := by
  intro statement hstatement bound hbound
  have hbinds : binds bound.name statement = true := List.any_eq_true.mpr ⟨bound, hbound, by simp⟩
  exact (isName_of_binds hwritten hstatement hbinds).isIdentifier

theorem unused_eq (hwritten : ∀ one ∈ written, one.WellFormed)
    (hlines : lines content = written.flatMap Written.rows ++ body)
    (hstatements : statements content = placed 1 written) :
    unused content = leftOver (placed 1 written) body := by
  rw [unused_eq_leftOver, hstatements, bodyLines_placed hwritten hlines]

theorem binds_of_mem_unused (hwritten : ∀ one ∈ written, one.WellFormed)
    (hunused : unused content = leftOver (placed 1 written) body) {line : Nat}
    (h : (name, line) ∈ unused content) :
    (∃ statement ∈ placed 1 written, statement.line = line ∧ binds name statement = true) ∧
      ∀ row ∈ body, ¬ StandsIn name row :=
  binds_of_mem_leftOver (isIdentifier_of_mem_placed hwritten) (hunused ▸ h)

theorem mem_unused_of_find? (hwritten : ∀ one ∈ written, one.WellFormed)
    (hunused : unused content = leftOver (placed 1 written) body) {statement : ImportStatement}
    (hfind : (placed 1 written).find? (binds name) = some statement)
    (hnone : ∀ row ∈ body, ¬ StandsIn name row) : (name, statement.line) ∈ unused content :=
  hunused ▸ mem_leftOver_of_find? (isIdentifier_of_mem_placed hwritten) hfind hnone

end Unused

/-- The statements at the top of a text are read as they are meant, and of the names that they bind
exactly those are unused that stand nowhere below, each on the line of the first statement that
binds it. -/
theorem statements_and_unused (hlines : lines content = written.flatMap Written.rows ++ body)
    (hwritten : ∀ one ∈ written, one.WellFormed)
    (hmistake : ∀ one ∈ written, ∀ binding ∈ one.binding, ¬ binding.MistakesName)
    (hbody : ∀ line ∈ body, opensImport (trimStart line) = false) :
    statements content = placed 1 written ∧
      (∀ name, (∃ line, (name, line) ∈ unused content) ↔
        (∃ statement ∈ placed 1 written, binds name statement = true) ∧
          ∀ line ∈ body, ¬ StandsIn name line) ∧
      (∀ name line, (name, line) ∈ unused content →
        ∃ statement ∈ placed 1 written, statement.line = line ∧ binds name statement = true) ∧
      (∀ name statement, (placed 1 written).find? (binds name) = some statement →
        (∀ line ∈ body, ¬ StandsIn name line) → (name, statement.line) ∈ unused content) := by
  have hstatements : statements content = placed 1 written := by
    rw [statements, hlines]
    exact statementsFrom_append hwritten hmistake hbody 1
  have hunused := unused_eq hwritten hlines hstatements
  refine ⟨hstatements, fun name => ⟨?_, ?_⟩, ?_, ?_⟩
  · rintro ⟨line, h⟩
    obtain ⟨⟨statement, hstatement, -, hbinds⟩, hnone⟩ := binds_of_mem_unused hwritten hunused h
    exact ⟨⟨statement, hstatement, hbinds⟩, hnone⟩
  · rintro ⟨⟨statement, hstatement, hbinds⟩, hnone⟩
    obtain ⟨first, hfind⟩ := Option.isSome_iff_exists.mp
      (List.find?_isSome.mpr ⟨statement, hstatement, hbinds⟩)
    exact ⟨first.line, mem_unused_of_find? hwritten hunused hfind hnone⟩
  · intro name line h
    exact (binds_of_mem_unused hwritten hunused h).1
  · intro name statement hfind hnone
    exact mem_unused_of_find? hwritten hunused hfind hnone

/-- A statement on four lines: its names are two items and a default name. -/
def sampleReact : Written where
  indent := []
  gap := [' ']
  binding := some
    { mark := none
      clause := .both "React".toList [] [' '] (.braces
        [⟨"\n  ".toList,
            { name := "useState".toList, renamed := some ⟨[], [], "state".toList⟩ }, []⟩,
          ⟨"\n  ".toList, { mark := some [], name := "Props".toList }, []⟩] (some ['\n']))
      before := [' ']
      after := [' '] }
  opening := '\''
  source := "react".toList
  closing := '\''
  ending := [';']

theorem sampleReact_wellFormed : sampleReact.WellFormed where
  indent := rfl
  newline_not_mem_indent := List.not_mem_nil
  gap := by decide
  newline_not_mem_gap := by decide
  gap_ne_nil _ := by decide
  binding := by
    rintro binding ⟨⟩
    refine ⟨by simp, ?_, by decide, by decide, by decide⟩
    refine .both ⟨by decide, by decide⟩ (by decide) (by decide) (.braces ?_ (by decide))
    intro listed hlisted
    simp only [List.mem_cons, List.not_mem_nil, or_false] at hlisted
    rcases hlisted with rfl | rfl
    · exact ⟨by decide, ⟨by simp, ⟨by decide, by decide⟩, by
        rintro renamed ⟨⟩
        exact ⟨by decide, by decide, by decide, by decide⟩, by decide⟩, by decide⟩
    · exact ⟨by decide, ⟨by decide, ⟨by decide, by decide⟩, by simp, by simp⟩, by decide⟩
  opening := rfl
  source_ne_nil := by decide
  source := by simp [sampleReact, isQuote]
  closing := rfl
  ending := by simp [sampleReact, isQuote]
  length_rows := by decide

/-- An import for its effects. -/
def sampleStyles : Written where
  indent := []
  gap := [' ']
  binding := none
  opening := '"'
  source := "./app.css".toList
  closing := '"'
  ending := []

theorem sampleStyles_wellFormed : sampleStyles.WellFormed where
  indent := rfl
  newline_not_mem_indent := List.not_mem_nil
  gap := by decide
  newline_not_mem_gap := by decide
  gap_ne_nil h := absurd rfl h
  binding := by simp [sampleStyles]
  opening := rfl
  source_ne_nil := by decide
  source := by simp [sampleStyles, isQuote]
  closing := rfl
  ending := by simp [sampleStyles, isQuote]
  length_rows := by decide

def sampleText : List Char :=
  ("import React, \x7b\n  useState as state,\n  type Props,\n\x7d from 'react';\n" ++
    "import \"./app.css\"\nexport default state(React);\n").toList

theorem sampleText_unused :
    statements sampleText = placed 1 [sampleReact, sampleStyles] ∧
      ("Props".toList, 1) ∈ unused sampleText ∧
      ¬ ∃ line, ("React".toList, line) ∈ unused sampleText := by
  have hlines : lines sampleText = [sampleReact, sampleStyles].flatMap Written.rows ++
      ["export default state(React);".toList] := by decide +kernel
  have hwritten : ∀ one ∈ [sampleReact, sampleStyles], one.WellFormed := by
    simpa using ⟨sampleReact_wellFormed, sampleStyles_wellFormed⟩
  have hmistake : ∀ one ∈ [sampleReact, sampleStyles], ∀ binding ∈ one.binding,
      ¬ binding.MistakesName := by
    simp [sampleReact, sampleStyles, Binding.MistakesName]
  have hbody : ∀ line ∈ ["export default state(React);".toList],
      opensImport (trimStart line) = false := by decide
  obtain ⟨hstatements, hnames, -, hfirst⟩ :=
    statements_and_unused hlines hwritten hmistake hbody
  have hstands {name : List Char} (hne : name ≠ []) (hname : name.all isIdentChar = true) :
      containsWord "export default state(React);".toList name = true ↔
        StandsIn name "export default state(React);".toList := containsWord_iff hne hname
  refine ⟨hstatements, ?_, ?_⟩
  · refine hfirst "Props".toList ⟨1, 4, "react".toList, sampleReact.names⟩ (by decide) ?_
    intro line hline
    rw [List.mem_singleton.mp hline, ← hstands (by decide) (by decide)]
    decide
  · rw [hnames]
    rintro ⟨-, hnone⟩
    refine hnone _ List.mem_cons_self ((hstands (by decide) (by decide)).mp ?_)
    decide

/-- A default name `type` with two blanks behind it. -/
def spacedType : Written where
  indent := []
  gap := [' ']
  binding := some
    { mark := none
      clause := .default "type".toList
      before := [' ', ' ']
      after := [' '] }
  opening := '\''
  source := ['x']
  closing := '\''
  ending := [';']

theorem spacedType_wellFormed : spacedType.WellFormed where
  indent := rfl
  newline_not_mem_indent := List.not_mem_nil
  gap := by decide
  newline_not_mem_gap := by decide
  gap_ne_nil _ := by decide
  binding := by
    rintro binding ⟨⟩
    exact ⟨by simp, .default ⟨by decide, by decide⟩, by decide, by decide, by decide⟩
  opening := rfl
  source_ne_nil := by decide
  source := by simp [spacedType, isQuote]
  closing := rfl
  ending := by simp [spacedType, isQuote]
  length_rows := by decide

/-- The name of an import is lost where it is taken for the mark. -/
theorem statements_ne_placed : ¬ ∀ (content : List Char) (written : List Written)
    (body : List (List Char)), lines content = written.flatMap Written.rows ++ body →
      (∀ one ∈ written, one.WellFormed) →
      (∀ line ∈ body, opensImport (trimStart line) = false) →
      statements content = placed 1 written := by
  intro hall
  have hplaced := hall "import type  from 'x';".toList [spacedType] [] (by decide)
    (by simpa using spacedType_wellFormed) (by simp)
  exact absurd hplaced (by decide +kernel)

end Scrutiny.Imports
