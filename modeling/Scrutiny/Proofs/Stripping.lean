import Scrutiny.Proofs.Tree.Descent

/-!
Paths below a base.  What is left of a path when the base is stripped off has the components that
follow the base's.
-/

namespace Scrutiny.Path

/-! ## 1. Segments that say nothing -/

theorem componentOf_of_isTrivial {segment : List Char} (h : isTrivial segment = true) :
    componentOf segment = none := by
  rw [componentOf, if_pos h]

theorem exists_componentOf {segment : List Char} (h : isTrivial segment = false) :
    ∃ component, componentOf segment = some component := by
  rw [componentOf, if_neg (by simp [h])]
  split
  · exact ⟨_, rfl⟩
  · exact ⟨_, rfl⟩

theorem filterMap_dropWhile_isTrivial (segments : List (List Char)) :
    (segments.dropWhile isTrivial).filterMap componentOf = segments.filterMap componentOf := by
  induction segments with
  | nil => rfl
  | cons segment segments ih =>
    by_cases h : isTrivial segment = true
    · rw [List.dropWhile_cons_of_pos h, ih, List.filterMap_cons, componentOf_of_isTrivial h]
    · rw [List.dropWhile_cons_of_neg h]

theorem filterMap_dropTrivialEnd (segments : List (List Char)) :
    (dropTrivialEnd segments).filterMap componentOf = segments.filterMap componentOf := by
  rw [dropTrivialEnd, List.filterMap_reverse, filterMap_dropWhile_isTrivial,
    ← List.filterMap_reverse, List.reverse_reverse]

/-- To drop segments up to a named one is to drop that many components. -/
theorem filterMap_dropNamed (count : Nat) (segments : List (List Char)) :
    (dropNamed count segments).filterMap componentOf =
      (segments.filterMap componentOf).drop count := by
  fun_induction dropNamed count segments with
  | case1 segments => rfl
  | case2 count => rfl
  | case3 count segment segments htrivial ih =>
    rw [ih, List.filterMap_cons, componentOf_of_isTrivial htrivial]
  | case4 count segment segments htrivial ih =>
    obtain ⟨component, hcomponent⟩ := exists_componentOf (eq_false_of_ne_true htrivial)
    rw [ih, List.filterMap_cons, hcomponent, List.drop_succ_cons]

/-! ## 2. Relative paths -/

/-- A text that begins with a segment that says something has no lead. -/
theorem lead_ofSegments {segments : List (List Char)}
    (hslash : ∀ segment ∈ segments, '/' ∉ segment)
    (hfirst : ∀ segment ∈ segments.head?, isTrivial segment = false) :
    (ofSegments [] segments).lead = [] := by
  rw [lead, ofSegments, String.toList_ofList, List.nil_append]
  cases segments with
  | nil => rfl
  | cons segment segments =>
    have htrivial := hfirst segment rfl
    have hnone := hslash segment List.mem_cons_self
    obtain ⟨tail, htail⟩ : ∃ tail, ['/'].intercalate (segment :: segments) = segment ++ tail := by
      cases segments with
      | nil => exact ⟨[], by simp⟩
      | cons next segments =>
        exact ⟨_, List.intercalate_cons_cons.trans (List.append_assoc _ _ _)⟩
    rw [htail]
    cases segment with
    | nil => simp [isTrivial] at htrivial
    | cons c rest =>
      split
      · simp_all
      · simp_all [isTrivial]
      · cases rest <;> simp_all [isTrivial]
      · rfl

theorem components_ofSegments {segments : List (List Char)}
    (hslash : ∀ segment ∈ segments, '/' ∉ segment)
    (hfirst : ∀ segment ∈ segments.head?, isTrivial segment = false) :
    (ofSegments [] segments).components = segments.filterMap componentOf := by
  have hlead := lead_ofSegments hslash hfirst
  rw [components, leadComponents, Path.segments, hlead, ofSegments, String.toList_ofList]
  show (Text.splitOn '/' (['/'].intercalate segments)).filterMap componentOf = _
  rw [Text.splitOn_eq_splitOn]
  cases segments with
  | nil => rfl
  | cons segment segments => rw [List.splitOn_intercalate '/' hslash (by simp)]

/-- Only an empty text of such segments has no components. -/
theorem eq_nil_of_filterMap_eq_nil {segments : List (List Char)}
    (hfirst : ∀ segment ∈ segments.head?, isTrivial segment = false)
    (h : segments.filterMap componentOf = []) : segments = [] := by
  cases segments with
  | nil => rfl
  | cons segment segments =>
    obtain ⟨component, hcomponent⟩ := exists_componentOf (hfirst segment rfl)
    rw [List.filterMap_cons, hcomponent] at h
    exact absurd h (List.cons_ne_nil _ _)

/-! ## 3. Below a base -/

/-- The path lies below the base, and not at it. -/
def IsAbove (base path : Path) : Prop :=
  ∃ rest, rest ≠ [] ∧ path.components = base.components ++ rest

theorem dropNamed_sublist (count : Nat) (segments : List (List Char)) :
    (dropNamed count segments).Sublist segments := by
  fun_induction dropNamed count segments with
  | case1 segments => exact .refl _
  | case2 count => exact .refl _
  | case3 count segment segments htrivial ih => exact ih.trans (List.sublist_cons_self _ _)
  | case4 count segment segments htrivial ih => exact ih.trans (List.sublist_cons_self _ _)

-- What the end is dropped from begins as before.
theorem head?_dropTrivialEnd {segments : List (List Char)}
    (hfirst : ∀ segment ∈ segments.head?, isTrivial segment = false) :
    ∀ segment ∈ (dropTrivialEnd segments).head?, isTrivial segment = false := by
  obtain ⟨blanks, hblanks⟩ := exists_dropTrivialEnd_append segments
  intro segment hsegment
  apply hfirst
  rw [← hblanks, List.head?_append, hsegment]
  rfl

theorem head?_dropWhile_isTrivial (segments : List (List Char)) :
    ∀ segment ∈ (segments.dropWhile isTrivial).head?, isTrivial segment = false := by
  intro segment hsegment
  have hnot := List.head?_dropWhile_not isTrivial segments
  rw [hsegment] at hnot
  simpa using hnot

/-- There is a rest of the path if the base's components begin the path's. -/
theorem isSome_stripBase? {base path : Path} :
    (base.stripBase? path).isSome = true ↔ base.components <+: path.components := by
  rw [stripBase?, ← List.isPrefixOf_iff_prefix]
  split
  next h => split <;> simp [h]
  next h => simp [h]

section Rest

variable {base path relative : Path}

/-- The rest is written with segments of the path, from one on that says something. -/
theorem exists_of_stripBase? (hbase : base.components ≠ [])
    (h : base.stripBase? path = some relative) :
    ∃ segments, relative = ofSegments [] segments ∧ (∀ segment ∈ segments, '/' ∉ segment) ∧
      (∀ segment ∈ segments.head?, isTrivial segment = false) ∧
      segments.filterMap componentOf = path.components.drop base.components.length := by
  have hprefix := isSome_stripBase?.mp (Option.isSome_of_eq_some h)
  rw [stripBase?, if_pos (List.isPrefixOf_iff_prefix.mpr hprefix),
    if_neg (by simpa using hbase), Option.some.injEq] at h
  let named := dropNamed (base.components.length - path.leadComponents.length) path.segments
  refine ⟨dropTrivialEnd (named.dropWhile isTrivial), h.symm, fun segment hsegment => ?_,
    head?_dropTrivialEnd (head?_dropWhile_isTrivial named), ?_⟩
  · apply slash_not_mem_segments path
    have hnamed : segment ∈ named := (List.dropWhile_sublist isTrivial).subset
      ((List.rdropWhile_prefix isTrivial _).subset hsegment)
    exact (dropNamed_sublist _ _).subset hnamed
  · -- the lead is one component at most, and the base has one at least
    have hlead : path.leadComponents.length ≤ base.components.length := by
      have hone : path.leadComponents.length ≤ 1 := by
        unfold leadComponents
        split <;> simp
      have hpos := List.length_pos_of_ne_nil hbase
      omega
    have hpath : path.components =
        path.leadComponents ++ path.segments.filterMap componentOf := rfl
    rw [filterMap_dropTrivialEnd, filterMap_dropWhile_isTrivial, filterMap_dropNamed, hpath,
      List.drop_append, List.drop_eq_nil_of_le hlead, List.nil_append]

theorem components_of_stripBase? (hbase : base.components ≠ [])
    (h : base.stripBase? path = some relative) :
    path.components = base.components ++ relative.components := by
  obtain ⟨rest, hrest⟩ := isSome_stripBase?.mp (Option.isSome_of_eq_some h)
  obtain ⟨segments, rfl, hslash, hfirst, hsegments⟩ := exists_of_stripBase? hbase h
  rw [components_ofSegments hslash hfirst, hsegments, ← hrest, List.drop_left]

theorem text_eq_empty_of_stripBase? (hbase : base.components ≠ [])
    (h : base.stripBase? path = some relative) :
    relative.text.isEmpty = true ↔ relative.components = [] := by
  obtain ⟨segments, rfl, hslash, hfirst, -⟩ := exists_of_stripBase? hbase h
  rw [components_ofSegments hslash hfirst, String.isEmpty_iff]
  constructor
  · intro htext
    have hempty : (ofSegments [] segments).components = [] := by
      rw [show ofSegments [] segments = ⟨""⟩ from congrArg Path.mk htext]
      rfl
    rwa [components_ofSegments hslash hfirst] at hempty
  · intro hnone
    rw [eq_nil_of_filterMap_eq_nil hfirst hnone]
    rfl

theorem isAbove_iff (hbase : base.components ≠ []) :
    base.IsAbove path ↔
      ∃ relative, base.stripBase? path = some relative ∧ relative.text.isEmpty = false := by
  constructor
  · rintro ⟨rest, hrest, hpath⟩
    obtain ⟨relative, hrelative⟩ :=
      Option.isSome_iff_exists.mp (isSome_stripBase?.mpr ⟨rest, hpath.symm⟩)
    refine ⟨relative, hrelative, ?_⟩
    have hsame := (components_of_stripBase? hbase hrelative).symm.trans hpath
    rw [← Bool.not_eq_true, text_eq_empty_of_stripBase? hbase hrelative,
      List.append_cancel_left hsame]
    exact hrest
  · rintro ⟨relative, hrelative, hne⟩
    refine ⟨relative.components, ?_, components_of_stripBase? hbase hrelative⟩
    rwa [ne_eq, ← text_eq_empty_of_stripBase? hbase hrelative, Bool.not_eq_true]

end Rest

end Scrutiny.Path
