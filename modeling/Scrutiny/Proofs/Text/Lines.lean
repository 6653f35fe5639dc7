import Mathlib.Data.List.DropRight
import Mathlib.Tactic.Common
import Scrutiny.Text.Lines

/-!
Trimmed ends and the pieces of a text between its newlines.  A text's lines and its pieces are
the same up to what trimming removes, and the pieces are the form that appending respects.
-/

namespace Scrutiny.Text

/-! ## 1. Trimmed ends -/

theorem trimEnd_eq_rdropWhile (text : List Char) : trimEnd text = text.rdropWhile isBlank := rfl

@[simp]
theorem trimEnd_nil : trimEnd [] = [] := rfl

theorem trimEnd_concat (text : List Char) (c : Char) :
    trimEnd (text ++ [c]) = if isBlank c then trimEnd text else text ++ [c] :=
  List.rdropWhile_concat isBlank text c

theorem trimEnd_eq_nil {text : List Char} : trimEnd text = [] ↔ isBlankText text = true := by
  rw [trimEnd_eq_rdropWhile, List.rdropWhile_eq_nil_iff, isBlankText, List.all_eq_true]

theorem trimEnd_trimEnd (text : List Char) : trimEnd (trimEnd text) = trimEnd text :=
  List.rdropWhile_idempotent isBlank text

-- What trimming takes away is blank.
theorem exists_trimEnd_append (text : List Char) :
    ∃ blanks, isBlankText blanks = true ∧ text = trimEnd text ++ blanks := by
  refine ⟨text.rtakeWhile isBlank, ?_, List.rdropWhile_append_rtakeWhile.symm⟩
  rw [isBlankText, List.all_eq_true]
  intro c hc
  exact List.mem_rtakeWhile_imp hc

-- Blanks at the end of the front part matter once the back part is not blank.
theorem trimEnd_append (front back : List Char) :
    trimEnd (front ++ back) =
      if isBlankText back then trimEnd front else front ++ trimEnd back := by
  induction back using List.reverseRecOn with
  | nil => simp [isBlankText]
  | append_singleton back c ih =>
    rw [← List.append_assoc, trimEnd_concat, trimEnd_concat, isBlankText, List.all_append]
    by_cases hc : isBlank c = true
    · rw [if_pos hc, if_pos hc, ih]
      simp [isBlankText, hc]
    · simp [hc]

theorem trimEnd_append_of_not_blank (front : List Char) {back : List Char}
    (hback : isBlankText back = false) : trimEnd (front ++ back) = front ++ trimEnd back := by
  rw [trimEnd_append, if_neg (by simp [hback])]

theorem trimEnd_cons (c : Char) (text : List Char) :
    trimEnd (c :: text) =
      if isBlankText text then (if isBlank c then [] else [c]) else c :: trimEnd text := by
  have h := trimEnd_append [c] text
  have hc : trimEnd [c] = if isBlank c then [] else [c] := List.rdropWhile_singleton isBlank c
  rw [hc] at h
  exact h

-- A character in front of two texts with the same trimmed form.
theorem trimEnd_cons_congr (c : Char) {a b : List Char} (h : trimEnd a = trimEnd b) :
    trimEnd (c :: a) = trimEnd (c :: b) := by
  have hblank : isBlankText a = isBlankText b := by
    rw [Bool.eq_iff_iff, ← trimEnd_eq_nil, ← trimEnd_eq_nil, h]
  rw [trimEnd_cons, trimEnd_cons, hblank, h]

-- Trimming never takes the first character of a text that is not blank.
theorem head?_trimEnd {text : List Char} (h : isBlankText text = false) :
    (trimEnd text).head? = text.head? := by
  cases text with
  | nil => rfl
  | cons c text =>
    rw [trimEnd_cons]
    split
    next ht =>
      have hc : isBlank c = false := by
        simpa [isBlankText, show text.all isBlank = true from ht] using h
      simp [hc]
    next => rfl

theorem trimStart_append {front : List Char} (hfront : isBlankText front = true)
    (text : List Char) : trimStart (front ++ text) = trimStart text :=
  List.dropWhile_append_of_pos (List.all_eq_true.mp hfront)

def SolidStart (text : List Char) : Prop :=
  ∃ c, text.head? = some c ∧ isBlank c = false

def SolidEnd (text : List Char) : Prop :=
  ∃ c, text.getLast? = some c ∧ isBlank c = false

theorem SolidStart.append {front : List Char} (h : SolidStart front) (back : List Char) :
    SolidStart (front ++ back) := by
  obtain ⟨c, hhead, hc⟩ := h
  exact ⟨c, by rw [List.head?_append, hhead]; rfl, hc⟩

theorem SolidEnd.append {back : List Char} (h : SolidEnd back) (front : List Char) :
    SolidEnd (front ++ back) := by
  obtain ⟨c, hlast, hc⟩ := h
  exact ⟨c, by rw [List.getLast?_append, hlast]; rfl, hc⟩

theorem SolidStart.trimStart {text : List Char} (h : SolidStart text) : trimStart text = text := by
  obtain ⟨c, hhead, hc⟩ := h
  cases text with
  | nil => rfl
  | cons d text =>
    obtain rfl := Option.some.inj hhead
    exact List.dropWhile_cons_of_neg (by simp [hc])

theorem SolidEnd.trimEnd {text : List Char} (h : SolidEnd text) : trimEnd text = text := by
  obtain ⟨c, hlast, hc⟩ := h
  rw [trimEnd_eq_rdropWhile, List.rdropWhile_eq_self_iff]
  intro hne
  rw [List.getLast?_eq_some_getLast hne] at hlast
  simp [Option.some.inj hlast, hc]

theorem SolidStart.isBlank_of_mem_head? {text : List Char} (h : SolidStart text) :
    ∀ c ∈ text.head?, isBlank c = false := by
  intro c hc
  obtain ⟨d, hd, hsolid⟩ := h
  obtain rfl := Option.some.inj ((Option.mem_def.mp hc).symm.trans hd)
  exact hsolid

theorem trim_of_isBlankText {text : List Char} (h : isBlankText text = true) : trim text = [] := by
  have hstart := trimStart_append h []
  rw [List.append_nil] at hstart
  rw [trim, hstart]
  rfl

/-- Trimming takes away the blanks around a text that neither begins nor ends with one. -/
theorem trim_padded {front text back : List Char} (hfront : isBlankText front = true)
    (hback : isBlankText back = true) (hstart : SolidStart text) (hend : SolidEnd text) :
    trim (front ++ text ++ back) = text := by
  rw [trim, List.append_assoc, trimStart_append hfront, (hstart.append back).trimStart,
    trimEnd_append, if_pos hback, hend.trimEnd]

theorem trim_append_left {front text : List Char} (hfront : isBlankText front = true)
    (hstart : SolidStart text) (hend : SolidEnd text) : trim (front ++ text) = text := by
  rw [trim, trimStart_append hfront, hstart.trimStart, hend.trimEnd]

theorem trimEnd_tail_append {c : Char} {text gap : List Char} (h : SolidEnd (c :: text))
    (hgap : isBlankText gap = true) : trimEnd (text ++ gap) = text := by
  rw [trimEnd_append, if_pos hgap]
  cases text with
  | nil => rfl
  | cons d text =>
    obtain ⟨last, hlast, hsolid⟩ := h
    exact SolidEnd.trimEnd ⟨last, by rwa [List.getLast?_cons_cons] at hlast, hsolid⟩

/-! ## 2. One line -/

/-- The text holds no line break. -/
def Unbroken (text : List Char) : Prop :=
  ∀ c ∈ text, c ≠ '\n' ∧ c ≠ '\r'

@[simp]
theorem unbroken_nil : Unbroken [] :=
  List.forall_mem_nil _

@[simp]
theorem unbroken_append {front back : List Char} :
    Unbroken (front ++ back) ↔ Unbroken front ∧ Unbroken back :=
  List.forall_mem_append

@[simp]
theorem unbroken_cons {c : Char} {text : List Char} :
    Unbroken (c :: text) ↔ (c ≠ '\n' ∧ c ≠ '\r') ∧ Unbroken text :=
  List.forall_mem_cons

theorem Unbroken.newline_not_mem {text : List Char} (h : Unbroken text) : '\n' ∉ text :=
  fun hmem => (h _ hmem).1 rfl

theorem unbroken_oneLine (text : List Char) : Unbroken (oneLine text) := by
  intro c hc
  obtain ⟨d, -, rfl⟩ := List.mem_map.mp hc
  split
  · decide
  next hd => simpa using hd

-- A line break is blank, and so is what it becomes.
theorem isBlank_oneLine (c : Char) :
    isBlank (if c == '\n' || c == '\r' then ' ' else c) = isBlank c := by
  split
  next h =>
    rw [Bool.or_eq_true, beq_iff_eq, beq_iff_eq] at h
    rcases h with rfl | rfl <;> rfl
  next => rfl

theorem isBlankText_oneLine (text : List Char) : isBlankText (oneLine text) = isBlankText text := by
  rw [isBlankText, isBlankText, oneLine, List.all_map]
  exact congrArg text.all (funext isBlank_oneLine)

/-! ## 3. Pieces -/

theorem consLine_ne_nil (c : Char) (lines : List (List Char)) : consLine c lines ≠ [] := by
  cases lines <;> exact List.cons_ne_nil _ _

theorem splitOn_eq_splitOn (separator : Char) (text : List Char) :
    splitOn separator text = text.splitOn separator := by
  induction text with
  | nil => exact (List.splitOn_nil separator).symm
  | cons c text ih =>
    rw [splitOn, List.splitOn_cons_eq_if_modifyHead, ih]
    congr 1
    cases hparts : text.splitOn separator with
    | nil => exact absurd hparts (List.splitOn_ne_nil separator text)
    | cons part parts => rfl

/-- The parts of a text between its newlines. -/
def pieces (text : List Char) : List (List Char) :=
  splitOn '\n' text

@[simp]
theorem pieces_nil : pieces [] = [[]] := rfl

@[simp]
theorem pieces_newline (text : List Char) : pieces ('\n' :: text) = [] :: pieces text := rfl

theorem pieces_cons {c : Char} (hc : c ≠ '\n') (text : List Char) :
    pieces (c :: text) = consLine c (pieces text) := by
  rw [pieces, splitOn, if_neg (by simpa using hc)]
  rfl

theorem pieces_ne_nil (text : List Char) : pieces text ≠ [] := by
  rw [pieces, splitOn_eq_splitOn]
  exact List.splitOn_ne_nil '\n' text

/-- A newline separates the pieces before it from those after it. -/
theorem pieces_append_newline (front back : List Char) :
    pieces (front ++ '\n' :: back) = pieces front ++ pieces back := by
  simp only [pieces, splitOn_eq_splitOn]
  exact List.splitOn_append_cons_self front back

theorem pieces_of_not_mem {text : List Char} (h : '\n' ∉ text) : pieces text = [text] := by
  rw [pieces, splitOn_eq_splitOn]
  exact List.splitOn_eq_singleton h

theorem intercalate_pieces (text : List Char) : ['\n'].intercalate (pieces text) = text := by
  rw [pieces, splitOn_eq_splitOn]
  exact List.intercalate_splitOn '\n'

-- What stands before the first newline belongs to the first piece.
theorem pieces_append_left {front : List Char} (hfront : '\n' ∉ front) {back piece : List Char}
    {rest : List (List Char)} (hback : pieces back = piece :: rest) :
    pieces (front ++ back) = (front ++ piece) :: rest := by
  induction front with
  | nil => exact hback
  | cons c front ih =>
    rw [List.mem_cons, not_or] at hfront
    rw [List.cons_append, pieces_cons (Ne.symm hfront.1), ih hfront.2]
    rfl

-- What stands behind the last newline belongs to the last piece.
theorem exists_pieces_append_right (front : List Char) {back : List Char} (hback : '\n' ∉ back) :
    ∃ init last, pieces front = init ++ [last] ∧
      pieces (front ++ back) = init ++ [last ++ back] := by
  induction front with
  | nil => exact ⟨[], [], rfl, pieces_of_not_mem hback⟩
  | cons c front ih =>
    obtain ⟨init, last, hfront, hall⟩ := ih
    by_cases hc : c = '\n'
    · refine ⟨[] :: init, last, ?_, ?_⟩
      · rw [hc, pieces_newline, hfront]
        rfl
      · rw [hc, List.cons_append, pieces_newline, hall]
        rfl
    · rw [List.cons_append, pieces_cons hc, pieces_cons hc, hfront, hall]
      cases init with
      | nil => exact ⟨[], c :: last, rfl, rfl⟩
      | cons piece init => exact ⟨(c :: piece) :: init, last, rfl, rfl⟩

theorem subset_of_mem_pieces {text piece : List Char} (hpiece : piece ∈ pieces text) :
    piece ⊆ text := by
  induction text generalizing piece with
  | nil =>
    rw [List.mem_singleton.mp hpiece]
    exact List.nil_subset []
  | cons c text ih =>
    by_cases hc : c = '\n'
    · rw [hc, pieces_newline, List.mem_cons] at hpiece
      rcases hpiece with rfl | hpiece
      · exact List.nil_subset _
      · exact List.subset_cons_of_subset c (ih hpiece)
    · rw [pieces_cons hc] at hpiece
      cases hpieces : pieces text with
      | nil => exact absurd hpieces (pieces_ne_nil text)
      | cons first rest =>
        rw [hpieces, consLine, List.mem_cons] at hpiece
        rcases hpiece with rfl | hpiece
        · exact List.cons_subset_cons c (ih (hpieces ▸ List.mem_cons_self))
        · exact List.subset_cons_of_subset c (ih (hpieces ▸ List.mem_cons_of_mem _ hpiece))

-- Text in front changes nothing behind the first newline.
theorem tail_pieces_suffix (front back : List Char) :
    (pieces back).tail <:+ (pieces (front ++ back)).tail := by
  induction front with
  | nil => exact List.suffix_refl _
  | cons c front ih =>
    by_cases hc : c = '\n'
    · rw [hc, List.cons_append, pieces_newline]
      exact ih.trans (List.tail_suffix _)
    · cases hpieces : pieces (front ++ back) with
      | nil => exact absurd hpieces (pieces_ne_nil _)
      | cons piece more =>
        rw [hpieces] at ih
        rw [List.cons_append, pieces_cons hc, hpieces]
        exact ih

-- A blank at the end of a text adds at most an empty piece, and else nothing that trimming leaves.
theorem map_trimEnd_pieces_concat (text : List Char) {c : Char} (hc : isBlank c = true) :
    (pieces (text ++ [c])).map trimEnd = (pieces text).map trimEnd ∨
      (pieces (text ++ [c])).map trimEnd = (pieces text).map trimEnd ++ [[]] := by
  induction text with
  | nil =>
    by_cases hn : c = '\n'
    · subst hn
      exact Or.inr rfl
    · rw [List.nil_append, pieces_cons hn]
      exact Or.inl (by simp [consLine, trimEnd_cons, isBlankText, hc])
  | cons d text ih =>
    by_cases hd : d = '\n'
    · subst hd
      simpa using ih
    · rw [List.cons_append, pieces_cons hd, pieces_cons hd]
      -- the first pieces agree after trimming, and so do the rests
      cases hp : pieces text with
      | nil => exact absurd hp (pieces_ne_nil text)
      | cons p ps =>
        cases hq : pieces (text ++ [c]) with
        | nil => exact absurd hq (pieces_ne_nil _)
        | cons q qs =>
          rw [hp, hq] at ih
          simp only [consLine, List.map_cons, List.cons_append, List.cons.injEq] at ih ⊢
          exact ih.imp (fun h => ⟨trimEnd_cons_congr d h.1, h.2⟩)
            fun h => ⟨trimEnd_cons_congr d h.1, h.2⟩

/-! ## 4. Substrings -/

theorem dropPrefix?_append (start rest : List Char) :
    dropPrefix? start (start ++ rest) = some rest := by
  rw [dropPrefix?, if_pos (List.isPrefixOf_iff_prefix.mpr (List.prefix_append start rest)),
    List.drop_left]

theorem dropPrefix?_eq_none {start text : List Char} (h : ¬ start <+: text) :
    dropPrefix? start text = none :=
  if_neg (mt List.isPrefixOf_iff_prefix.mp h)

theorem afterLast?_eq_none {separator text : List Char} (h : ¬ separator <:+: text) :
    afterLast? separator text = none := by
  induction text with
  | nil =>
    have hne : separator ≠ [] := fun hnil => h (hnil ▸ List.infix_refl [])
    simp [afterLast?, hne]
  | cons c text ih =>
    rw [List.infix_cons_iff, not_or] at h
    rw [afterLast?, ih h.2, dropPrefix?_eq_none h.1]

theorem afterLast?_append {separator back : List Char} {after : List Char} (front : List Char)
    (h : afterLast? separator back = some after) :
    afterLast? separator (front ++ back) = some after := by
  induction front with
  | nil => exact h
  | cons c front ih => rw [List.cons_append, afterLast?, ih]

/-! ## 5. Lines and pieces -/

theorem lines_eq_nil {text : List Char} (h : lines text = []) : text = [] := by
  fun_cases lines text with
  | case1 => rfl
  | case2 rest => exact absurd h (by simp [lines])
  | case3 rest => exact absurd h (by simp [lines])
  | case4 c rest hn hr =>
    rw [lines.eq_4 c rest hn hr] at h
    exact absurd h (consLine_ne_nil c _)

theorem not_mem_consLine {separator c : Char} (hc : c ≠ separator) {rows : List (List Char)}
    (hrows : ∀ row ∈ rows, separator ∉ row) : ∀ row ∈ consLine c rows, separator ∉ row := by
  intro row hrow
  cases rows with
  | nil =>
    rw [List.mem_singleton.mp hrow]
    simpa using Ne.symm hc
  | cons first rows =>
    rcases List.mem_cons.mp hrow with rfl | hmem
    · rw [List.mem_cons, not_or]
      exact ⟨Ne.symm hc, hrows first List.mem_cons_self⟩
    · exact hrows row (List.mem_cons_of_mem _ hmem)

theorem not_mem_splitOn (separator : Char) (text : List Char) :
    ∀ piece ∈ splitOn separator text, separator ∉ piece := by
  induction text with
  | nil => simp [splitOn]
  | cons c text ih =>
    rw [splitOn]
    by_cases hc : c = separator
    · simpa [hc] using ih
    · rw [if_neg (by simpa using hc)]
      exact not_mem_consLine hc ih

/-- An unbroken row with a newline behind it is the first line. -/
theorem lines_append_newline {row : List Char} (h : Unbroken row) (rest : List Char) :
    lines (row ++ '\n' :: rest) = row :: lines rest := by
  induction row with
  | nil => rfl
  | cons c row ih =>
    obtain ⟨⟨hnewline, hreturn⟩, hrow⟩ := unbroken_cons.mp h
    rw [List.cons_append, lines.eq_4 _ _ hnewline fun _ hc => absurd hc hreturn, ih hrow, consLine]

/-- Unbroken rows with a newline behind each are the lines of their text. -/
theorem lines_flatMap {rows : List (List Char)} (h : ∀ row ∈ rows, Unbroken row) :
    lines (rows.flatMap fun row => row ++ ['\n']) = rows := by
  induction rows with
  | nil => rfl
  | cons row rows ih =>
    rw [List.forall_mem_cons] at h
    rw [List.flatMap_cons, List.append_assoc, List.singleton_append, lines_append_newline h.1,
      ih h.2]

theorem newline_not_mem_lines (text : List Char) : ∀ row ∈ lines text, '\n' ∉ row := by
  fun_induction lines text with
  | case1 => simp
  | case2 rest ih => simpa using ih
  | case3 rest ih => simpa using ih
  | case4 c rest hn _ ih => exact not_mem_consLine (fun h => hn h) ih

/-- Rows with newlines between them and one at the end are rows with a newline behind each. -/
theorem intercalate_append_newline {rows : List (List Char)} (h : rows ≠ []) :
    ['\n'].intercalate rows ++ ['\n'] = rows.flatMap fun row => row ++ ['\n'] := by
  induction rows with
  | nil => exact absurd rfl h
  | cons row rows ih =>
    cases rows with
    | nil => simp
    | cons next rows =>
      rw [List.intercalate_cons_cons, List.append_assoc, ih (List.cons_ne_nil next rows)]
      simp

theorem getLast?_flatMap_newline {rows : List (List Char)} (h : rows ≠ []) :
    (rows.flatMap fun row => row ++ ['\n']).getLast? = some '\n' := by
  obtain ⟨front, row, rfl⟩ := List.eq_nil_or_concat rows |>.resolve_left h
  simp

/-- A text's pieces are its lines, but for carriage returns at their ends and an empty piece
after a final newline. -/
theorem map_trimEnd_pieces (text : List Char) :
    (pieces text).map trimEnd = (lines text).map trimEnd ∨
      (pieces text).map trimEnd = (lines text).map trimEnd ++ [[]] := by
  fun_induction lines text with
  | case1 => exact Or.inr rfl
  | case2 rest ih => simpa using ih
  -- a carriage return before a newline is trimmed away
  | case3 rest ih =>
    have hreturn : trimEnd ['\r'] = trimEnd [] := rfl
    rw [pieces_cons (by decide), pieces_newline]
    simpa [consLine, hreturn] using ih
  | case4 c rest hn _ ih =>
    rw [pieces_cons (fun h => hn h)]
    cases hl : lines rest with
    | nil =>
      rw [lines_eq_nil hl]
      exact Or.inl rfl
    | cons l ls =>
      cases hp : pieces rest with
      | nil => exact absurd hp (pieces_ne_nil rest)
      | cons p ps =>
        rw [hp, hl] at ih
        simp only [consLine, List.map_cons, List.cons_append, List.cons.injEq] at ih ⊢
        exact ih.imp (fun h => ⟨trimEnd_cons_congr c h.1, h.2⟩)
          fun h => ⟨trimEnd_cons_congr c h.1, h.2⟩

/-! ## 6. Numbered items -/

theorem pairwise_numbered {α : Type} (items : List α) :
    (numbered items).Pairwise fun a b => a.1 < b.1 := by
  have hplaces : (items.zipIdx.map Prod.snd).Pairwise (· < ·) := by
    rw [List.zipIdx_map_snd]
    exact List.pairwise_lt_range' 1
  rw [numbered, List.pairwise_map]
  exact (List.pairwise_map.mp hplaces).imp fun h => Nat.succ_lt_succ h

theorem numbered_append {α : Type} (front back : List α) :
    numbered (front ++ back) =
      numbered front ++ (numbered back).map fun item => (front.length + item.1, item.2) := by
  simp only [numbered, List.zipIdx_append, List.map_append, List.map_map]
  congr 1
  rw [List.zipIdx_eq_map_add, List.map_map]
  refine List.map_congr_left fun item _ => ?_
  simp [Nat.add_assoc]

theorem mem_numbered {α : Type} {items : List α} {item : Nat × α} (h : item ∈ numbered items) :
    1 ≤ item.1 ∧ item.1 ≤ items.length := by
  obtain ⟨⟨x, index⟩, hx, rfl⟩ := List.mem_map.mp h
  have hindex := (List.mem_zipIdx' hx).1
  exact ⟨Nat.succ_pos index, hindex⟩

theorem mem_numbered_iff {α : Type} {items : List α} {number : Nat} {item : α} :
    (number, item) ∈ numbered items ↔
      ∃ before back, items = before ++ item :: back ∧ number = before.length + 1 := by
  constructor
  · intro h
    obtain ⟨⟨x, index⟩, hx, heq⟩ := List.mem_map.mp h
    obtain ⟨rfl, rfl⟩ := Prod.mk.inj heq
    obtain ⟨hindex, hitem⟩ := List.mem_zipIdx' hx
    refine ⟨items.take index, items.drop (index + 1), ?_, ?_⟩
    · rw [hitem, List.getElem_cons_drop, List.take_append_drop]
    · rw [List.length_take, Nat.min_eq_left (Nat.le_of_lt hindex)]
  · rintro ⟨before, back, rfl, rfl⟩
    have hmem : (item, before.length) ∈ (before ++ item :: back).zipIdx :=
      List.mem_zipIdx_iff_getElem?.mpr (by simp)
    exact List.mem_map.mpr ⟨_, hmem, rfl⟩

theorem eq_of_mem_numbered {α : Type} {items : List α} {number : Nat} {item other : α}
    (h : (number, item) ∈ numbered items) (hother : (number, other) ∈ numbered items) :
    item = other := by
  obtain ⟨before, back, hitems, hnumber⟩ := mem_numbered_iff.mp h
  obtain ⟨front, rest, hitems', hnumber'⟩ := mem_numbered_iff.mp hother
  have hlength : before.length = front.length := Nat.succ.inj (hnumber.symm.trans hnumber')
  exact (List.cons.inj (List.append_inj (hitems.symm.trans hitems') hlength).2).1

@[simp]
theorem map_snd_numbered {α : Type} (items : List α) : (numbered items).map Prod.snd = items := by
  rw [numbered, List.map_map]
  exact List.zipIdx_map_fst 0 items

end Scrutiny.Text
