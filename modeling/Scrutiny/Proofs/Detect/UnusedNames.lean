import Scrutiny.Proofs.Detect.ImportRanges
import Scrutiny.Proofs.Identity

/-!
Names that are imported and not used, on any text.  What the search leaves over is what the
statements bind and no line outside them holds, and the finding of a file lists just that.
-/

namespace Scrutiny.Imports

open Text

/-! ## 1. Bound names -/

/-- Whether a statement binds a name. -/
def binds (name : List Char) (statement : ImportStatement) : Bool :=
  statement.names.any fun bound => bound.name == name

/-- The names that statements bind, with the lines of the statements. -/
def imported (found : List ImportStatement) : List (List Char × Nat) :=
  found.flatMap fun statement => statement.names.map fun name => (name.name, statement.line)

theorem mem_imported {found : List ImportStatement} {name : List Char} {line : Nat} :
    (name, line) ∈ imported found ↔
      ∃ statement ∈ found, statement.line = line ∧ binds name statement = true := by
  simp only [imported, binds, List.mem_flatMap, List.mem_map, List.any_eq_true, beq_iff_eq,
    Prod.mk.injEq]
  constructor
  · rintro ⟨statement, hstatement, bound, hbound, hname, hline⟩
    exact ⟨statement, hstatement, hline, bound, hbound, hname⟩
  · rintro ⟨statement, hstatement, hline, bound, hbound, hname⟩
    exact ⟨statement, hstatement, bound, hbound, hname, hline⟩

theorem find?_imported (found : List ImportStatement) (name : List Char) :
    (imported found).find? (fun item => item.1 == name) =
      (found.find? (binds name)).map fun statement => (name, statement.line) := by
  induction found with
  | nil => rfl
  | cons statement found ih =>
    have hfirst : (statement.names.map fun bound => (bound.name, statement.line)).find?
        (fun item => item.1 == name) =
          if binds name statement then some (name, statement.line) else none := by
      rw [List.find?_map]
      change (statement.names.find? fun bound => bound.name == name).map _ = _
      cases hbound : statement.names.find? fun bound => bound.name == name with
      | none =>
        have hbinds : ¬ binds name statement = true := by
          rw [binds, List.any_eq_true]
          rintro ⟨bound, hmem, hname⟩
          exact List.find?_eq_none.mp hbound bound hmem hname
        rw [if_neg hbinds]
        rfl
      | some bound =>
        have hname := List.find?_some hbound
        have hbinds : binds name statement = true :=
          List.any_eq_true.mpr ⟨bound, List.mem_of_find?_eq_some hbound, hname⟩
        rw [if_pos hbinds, Option.map_some, eq_of_beq hname]
    rw [imported, List.flatMap_cons, List.find?_append, hfirst, ← imported, ih, List.find?_cons]
    cases binds name statement <;> rfl

theorem mem_of_mem_dropRepeats {items : List (List Char × Nat)} {item : List Char × Nat}
    (h : item ∈ dropRepeats items) : item ∈ items := by
  fun_induction dropRepeats items with
  | case1 => exact h
  | case2 => exact h
  | case3 first second rest _ ih =>
    exact (List.mem_cons.mp (ih h)).elim (fun h => h ▸ List.mem_cons_self)
      fun h => List.mem_cons_of_mem _ (List.mem_cons_of_mem _ h)
  | case4 first second rest _ ih =>
    rcases List.mem_cons.mp h with rfl | h
    · exact List.mem_cons_self
    · exact List.mem_cons_of_mem _ (ih h)

-- Of each name the first item stays.
theorem find?_dropRepeats (items : List (List Char × Nat)) (name : List Char) :
    (dropRepeats items).find? (fun item => item.1 == name) =
      items.find? fun item => item.1 == name := by
  fun_induction dropRepeats items with
  | case1 => rfl
  | case2 => rfl
  | case3 first second rest hsame ih =>
    rw [ih, List.find?_cons, List.find?_cons, List.find?_cons, ← eq_of_beq hsame]
    cases first.1 == name <;> rfl
  | case4 first second rest _ ih => rw [List.find?_cons, List.find?_cons, ih]

/-! ## 2. What is left over -/

section LeftOver

variable {found : List ImportStatement} {body : List (List Char)} {name : List Char}

/-- The names that statements bind and no line of the body uses, with the lines of the statements,
but of neighbours with the same name only the first. -/
def leftOver (found : List ImportStatement) (body : List (List Char)) : List (List Char × Nat) :=
  dropRepeats ((imported found).filter fun item => !body.any fun line => containsWord line item.1)

theorem unused_eq_leftOver (content : List Char) :
    unused content = leftOver (statements content) (bodyLines content (statements content)) :=
  rfl

-- Of identifiers the search for words says where they stand.
theorem any_containsWord (hname : isIdentifier name = true) :
    (body.any fun line => containsWord line name) = true ↔ ∃ line ∈ body, StandsIn name line := by
  have hiff (line : List Char) : containsWord line name = true ↔ StandsIn name line :=
    containsWord_iff (ne_nil_of_isIdentifier hname) (all_isIdentChar_of_isIdentifier hname)
  simp only [List.any_eq_true, hiff]

theorem isIdentifier_of_binds
    (hfound : ∀ statement ∈ found, ∀ bound ∈ statement.names, isIdentifier bound.name = true)
    {statement : ImportStatement} (hstatement : statement ∈ found)
    (hbinds : binds name statement = true) : isIdentifier name = true := by
  obtain ⟨bound, hbound, hname⟩ := List.any_eq_true.mp hbinds
  rw [← eq_of_beq hname]
  exact hfound statement hstatement bound hbound

theorem binds_of_mem_leftOver
    (hfound : ∀ statement ∈ found, ∀ bound ∈ statement.names, isIdentifier bound.name = true)
    {line : Nat} (h : (name, line) ∈ leftOver found body) :
    (∃ statement ∈ found, statement.line = line ∧ binds name statement = true) ∧
      ∀ row ∈ body, ¬ StandsIn name row := by
  obtain ⟨himported, hused⟩ := List.mem_filter.mp (mem_of_mem_dropRepeats h)
  obtain ⟨statement, hstatement, hline, hbinds⟩ := mem_imported.mp himported
  refine ⟨⟨statement, hstatement, hline, hbinds⟩, fun row hrow hstands => ?_⟩
  have hany := (any_containsWord (isIdentifier_of_binds hfound hstatement hbinds)).mpr
    ⟨row, hrow, hstands⟩
  simp [hany] at hused

-- Of a name that nothing uses the first item is neither filtered out nor a repeat.
theorem mem_leftOver_of_find?
    (hfound : ∀ statement ∈ found, ∀ bound ∈ statement.names, isIdentifier bound.name = true)
    {statement : ImportStatement} (hfind : found.find? (binds name) = some statement)
    (hnone : ∀ row ∈ body, ¬ StandsIn name row) : (name, statement.line) ∈ leftOver found body := by
  have hname := isIdentifier_of_binds hfound (List.mem_of_find?_eq_some hfind)
    (List.find?_some hfind)
  have hany : (body.any fun line => containsWord line name) = false := by
    rw [Bool.eq_false_iff, ne_eq, any_containsWord hname]
    rintro ⟨row, hrow, hstands⟩
    exact hnone row hrow hstands
  have hsame : (fun item : List Char × Nat => decide ((!body.any fun line =>
      containsWord line item.1) = true ∧ (item.1 == name) = true)) =
        fun item => item.1 == name := by
    funext item
    by_cases hitem : item.1 = name
    · simp [hitem, hany]
    · simp [hitem]
  have hitem : (leftOver found body).find? (fun item => item.1 == name) =
      some (name, statement.line) := by
    rw [leftOver, find?_dropRepeats, List.find?_filter, hsame, find?_imported, hfind]
    rfl
  exact List.mem_of_find?_eq_some hitem

end LeftOver

/-! ## 3. Unused names of a text -/

section Text

variable {content : List Char} {name : List Char}

theorem mem_bodyLines {found : List ImportStatement} {row : List Char} :
    row ∈ bodyLines content found ↔
      ∃ before back, lines content = before ++ row :: back ∧
        ∀ statement ∈ found, ImportStatement.covers statement (before.length + 1) = false := by
  rw [bodyLines, List.mem_map]
  constructor
  · rintro ⟨⟨number, line⟩, hmem, rfl⟩
    obtain ⟨hnumbered, houtside⟩ := List.mem_filter.mp hmem
    obtain ⟨before, back, hsplit, rfl⟩ := mem_numbered_iff.mp hnumbered
    exact ⟨before, back, hsplit, by simpa using houtside⟩
  · rintro ⟨before, back, hsplit, houtside⟩
    have hnumbered := mem_numbered_iff.mpr ⟨before, back, hsplit, rfl⟩
    exact ⟨_, List.mem_filter.mpr ⟨hnumbered, by simpa using houtside⟩, rfl⟩

/-- A statement of the text binds the name, which stands on no line outside the statements. -/
def IsUnused (content name : List Char) : Prop :=
  (∃ statement ∈ statements content, binds name statement = true) ∧
    ∀ before row back, lines content = before ++ row :: back →
      (∀ statement ∈ statements content,
        ImportStatement.covers statement (before.length + 1) = false) → ¬ StandsIn name row

theorem isIdentifier_of_mem_statements (content : List Char) :
    ∀ statement ∈ statements content, ∀ bound ∈ statement.names,
      isIdentifier bound.name = true := by
  intro statement hstatement
  obtain ⟨_, _, _, -, -, -, hforms⟩ := (ranges_statements content).exists_forms statement hstatement
  exact isIdentifier_of_matchStart? hforms.reads

theorem not_standsIn_iff :
    (∀ row ∈ bodyLines content (statements content), ¬ StandsIn name row) ↔
      ∀ before row back, lines content = before ++ row :: back →
        (∀ statement ∈ statements content,
          ImportStatement.covers statement (before.length + 1) = false) → ¬ StandsIn name row := by
  constructor
  · intro h before row back hsplit houtside
    exact h row (mem_bodyLines.mpr ⟨before, back, hsplit, houtside⟩)
  · intro h row hrow
    obtain ⟨before, back, hsplit, houtside⟩ := mem_bodyLines.mp hrow
    exact h before row back hsplit houtside

theorem isUnused_of_mem_unused {line : Nat} (h : (name, line) ∈ unused content) :
    IsUnused content name ∧
      ∃ statement ∈ statements content, statement.line = line ∧ binds name statement = true := by
  obtain ⟨⟨statement, hstatement, hline, hbinds⟩, hnone⟩ :=
    binds_of_mem_leftOver (isIdentifier_of_mem_statements content) h
  exact ⟨⟨⟨statement, hstatement, hbinds⟩, not_standsIn_iff.mp hnone⟩,
    statement, hstatement, hline, hbinds⟩

/-- Of an unused name there is an item, on a line no later than that of any statement binding it. -/
theorem exists_mem_unused (h : IsUnused content name) {statement : ImportStatement}
    (hstatement : statement ∈ statements content) (hbinds : binds name statement = true) :
    ∃ line ≤ statement.line, (name, line) ∈ unused content := by
  obtain ⟨first, hfind⟩ := Option.isSome_iff_exists.mp
    (List.find?_isSome.mpr ⟨statement, hstatement, hbinds⟩)
  refine ⟨first.line, ?_, mem_leftOver_of_find? (isIdentifier_of_mem_statements content) hfind
    (not_standsIn_iff.mpr h.2)⟩
  -- the statements that bind the name stand behind the first one that does
  obtain ⟨-, front, back, hsplit, hfront⟩ := List.find?_eq_some_iff_append.mp hfind
  have hlines := (ranges_statements content).pairwise_line
  rw [hsplit] at hlines hstatement
  rcases List.mem_append.mp hstatement with hmem | hmem
  · exact absurd (hfront statement hmem) (by simp [hbinds])
  · rcases List.mem_cons.mp hmem with rfl | hmem
    · exact Nat.le_refl _
    · have hbehind := (List.pairwise_append.mp hlines).2.1
      exact Nat.le_of_lt (List.rel_of_pairwise_cons hbehind hmem)

end Text

/-! ## 4. The finding of a file -/

theorem mem_distinctSorted_go {names : List String} {name : String} :
    name ∈ distinctSorted.go names ↔ name ∈ names := by
  fun_induction distinctSorted.go names with
  | case1 => rfl
  | case2 => rfl
  | case3 first second rest hsame ih => simp [ih, eq_of_beq hsame]
  | case4 first second rest _ ih => rw [List.mem_cons, ih, List.mem_cons (b := first)]

theorem mem_distinctSorted {names : List String} {name : String} :
    name ∈ distinctSorted names ↔ name ∈ names := by
  rw [distinctSorted, mem_distinctSorted_go, (Identity.sortTexts_perm names).mem_iff]

theorem distinctSorted_eq_nil_iff {names : List String} :
    distinctSorted names = [] ↔ names = [] := by
  simp only [List.eq_nil_iff_forall_not_mem, mem_distinctSorted]

theorem pairwise_distinctSorted_go {names : List String} (h : names.Pairwise (· ≤ ·)) :
    (distinctSorted.go names).Pairwise (· < ·) := by
  fun_induction distinctSorted.go names with
  | case1 => exact .nil
  | case2 => exact List.pairwise_singleton _ _
  | case3 first second rest _ ih => exact ih (List.pairwise_cons.mp h).2
  | case4 first second rest hdiffer ih =>
    obtain ⟨hfirst, hrest⟩ := List.pairwise_cons.mp h
    refine .cons (fun name hname => ?_) (ih hrest)
    have hmem := mem_distinctSorted_go.mp hname
    have hlt : first < second :=
      lt_of_le_of_ne (hfirst second List.mem_cons_self) (by simpa using hdiffer)
    rcases List.mem_cons.mp hmem with rfl | hmem
    · exact hlt
    · exact lt_of_lt_of_le hlt (List.rel_of_pairwise_cons hrest hmem)

theorem pairwise_distinctSorted (names : List String) :
    (distinctSorted names).Pairwise (· < ·) :=
  pairwise_distinctSorted_go (Identity.pairwise_sortTexts names)

/-- The earliest line is that of the first statement that binds an unused name. -/
theorem exists_first_of_min?_unused {content : List Char} {line : Nat}
    (h : ((unused content).map Prod.snd).min? = some line) :
    ∃ first ∈ statements content, first.line = line ∧
      (∃ name, binds name first = true ∧ IsUnused content name) ∧
      ∀ other ∈ statements content, ∀ name, binds name other = true → IsUnused content name →
        first.line ≤ other.line := by
  obtain ⟨hmem, hleast⟩ := List.min?_eq_some_iff.mp h
  obtain ⟨⟨name, _⟩, hitem, rfl⟩ := List.mem_map.mp hmem
  obtain ⟨hunused, first, hfirst, hline, hbinds⟩ := isUnused_of_mem_unused hitem
  refine ⟨first, hfirst, hline, ⟨name, hbinds, hunused⟩, fun other hother name hbinds hunused => ?_⟩
  obtain ⟨line, hle, hmem⟩ := exists_mem_unused hunused hother hbinds
  rw [hline]
  exact Nat.le_trans (hleast line (List.mem_map.mpr ⟨_, hmem, rfl⟩)) hle

/-- The names that the finding of a text lists. -/
def listedNames (content : List Char) : List String :=
  distinctSorted ((unused content).map fun (name, _) => String.ofList name)

theorem mem_listedNames {content : List Char} {name : String} :
    name ∈ listedNames content ↔ IsUnused content name.toList := by
  rw [listedNames, mem_distinctSorted, List.mem_map]
  constructor
  · rintro ⟨⟨chars, line⟩, hitem, rfl⟩
    rw [String.toList_ofList]
    exact (isUnused_of_mem_unused hitem).1
  · intro h
    obtain ⟨statement, hstatement, hbinds⟩ := h.1
    obtain ⟨line, -, hmem⟩ := exists_mem_unused h hstatement hbinds
    exact ⟨_, hmem, String.ofList_toList⟩

theorem listedNames_eq_nil_iff {content : List Char} :
    listedNames content = [] ↔ unused content = [] := by
  rw [listedNames, distinctSorted_eq_nil_iff, List.map_eq_nil_iff]

/-- A file without unused names has no finding.  That of any other lists them, each once and in
order, and points at the first statement that binds one of them. -/
theorem checkFile_exact (file : SourceFile) :
    ∃ names : List String, names.Pairwise (· < ·) ∧
      (∀ name, name ∈ names ↔ IsUnused file.content.toList name.toList) ∧
      (names = [] → checkFile file = none) ∧
      (names ≠ [] → ∃ first ∈ statements file.content.toList,
        (∃ name, binds name first = true ∧ IsUnused file.content.toList name) ∧
        (∀ other ∈ statements file.content.toList, ∀ name, binds name other = true →
          IsUnused file.content.toList name → first.line ≤ other.line) ∧
        checkFile file = some
          { category := .elim
            subject := "unused imports: " ++ joinWith ", " names
            description := toString names.length ++
              " " ++ (if names.length = 1 then "import is" else "imports are") ++
                " never used in " ++ file.path.text ++ ": " ++ joinWith ", " names ++ "."
            files := [file.path]
            location := some (lineLocation file.path first.line)
            severity := if 5 ≤ names.length then .medium else .low }) := by
  refine ⟨listedNames file.content.toList, pairwise_distinctSorted _, fun _ => mem_listedNames,
    fun hnil => ?_, fun hne => ?_⟩
  · rw [checkFile, listedNames_eq_nil_iff.mp hnil]
    rfl
  · have hitems : (unused file.content.toList).map Prod.snd ≠ [] := by
      rw [ne_eq, List.map_eq_nil_iff, ← listedNames_eq_nil_iff]
      exact hne
    obtain ⟨line, hmin⟩ := Option.isSome_iff_exists.mp (List.isSome_min?_of_ne_nil hitems)
    obtain ⟨first, hfirst, rfl, hbinds, hleast⟩ := exists_first_of_min?_unused hmin
    refine ⟨first, hfirst, hbinds, hleast, ?_⟩
    rw [checkFile, hmin]
    rfl

end Scrutiny.Imports
