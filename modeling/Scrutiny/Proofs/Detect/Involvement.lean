import Scrutiny.Proofs.Detect.Clones
import Scrutiny.Proofs.Detect.Scope

/-!
What the search for duplicated code says about the changed files of an incremental run.  Some place
of a reported fingerprint lies in one of them, but it is the first two places that are named.
-/

namespace Scrutiny.Clones

variable {scope : Scope} {finding : Finding}

/-! ## 1. What is named -/

/-- All places of a project that have a fingerprint, file by file. -/
def places (scope : Scope) (hash : Int32) : List Site :=
  (eligible scope.files).flatMap (sitesIn scope.config hash)

theorem Duplicate.files_finding (window : Nat) (d : Duplicate) :
    (d.finding window).files =
      if d.first.path.same d.second.path then [d.first.path] else [d.first.path, d.second.path] :=
  rfl

-- A path that is left out is the same as the one that is named.
theorem Duplicate.exists_mem_files_finding (window : Nat) (d : Duplicate) (set : PathSet) :
    (∃ path ∈ (d.finding window).files, set.contains path = true) ↔
      set.contains d.first.path = true ∨ set.contains d.second.path = true := by
  rw [d.files_finding window]
  by_cases hsame : d.first.path.same d.second.path = true
  · rw [if_pos hsame, ← PathSet.contains_congr hsame set, or_self]
    simp
  · rw [if_neg hsame]
    simp

/-! ## 2. What is reported -/

theorem occurrences_of_cloneWindow_eq_zero {config : AnalysisConfig}
    (h : config.cloneWindow = 0) (files : List SourceFile) : occurrences config files = [] := by
  have hwindows (rows : List (List Char)) : windows config.cloneWindow rows = [] := by
    rw [h]
    cases rows <;> simp [windows]
  have hin (index : Nat) (content : String) : occurrencesIn config index content = [] := by
    rw [occurrencesIn, hwindows]
    rfl
  simp [occurrences, hin]

/-- What is found are the first two places of a fingerprint that has one in a changed file. -/
theorem exists_duplicate_of_mem_findings (h : finding ∈ (detect scope).findings) :
    ∃ (d : Duplicate) (rest : List Site), finding = d.finding scope.config.cloneWindow ∧
      places scope d.hash = d.first :: d.second :: rest ∧
      ∀ changed, scope.changed = some changed →
        ∃ site ∈ d.first :: d.second :: rest, changed.contains site.path = true := by
  rw [findings_detect, List.map_map, List.mem_map] at h
  obtain ⟨pair, hpair, rfl⟩ := h
  have hmem : pair ∈ pairs scope := (firstsBy_sublist Pair.files [] (pairs scope)).subset hpair
  obtain ⟨rest, hgroup, hreportable⟩ := mem_leadingPairs.mp hmem
  have hwindow : 1 ≤ scope.config.cloneWindow := by
    rw [Nat.one_le_iff_ne_zero]
    intro hzero
    rw [occurrences_of_cloneWindow_eq_zero hzero] at hgroup
    exact List.cons_ne_nil _ _ hgroup.symm
  have hplaces := map_site_filter_occurrences hwindow pair.first.hash (eligible scope.files)
  rw [hgroup] at hplaces
  exact ⟨duplicate (eligible scope.files) pair, rest.map (site (eligible scope.files)), rfl,
    hplaces.symm, (isReportable_iff (List.cons_ne_nil _ _)).mp hreportable⟩

/-- A finding of an incremental run is about the first two places of a fingerprint, and names a
changed file exactly if one of these two lies in one.  So it does, unless the changed files hold
later places of the fingerprint only. -/
theorem names_changed {changed : PathSet} (hchanged : scope.changed = some changed)
    (h : finding ∈ (detect scope).findings) :
    ∃ (d : Duplicate) (rest : List Site), finding = d.finding scope.config.cloneWindow ∧
      places scope d.hash = d.first :: d.second :: rest ∧
      ((∃ path ∈ finding.files, changed.contains path = true) ↔
        changed.contains d.first.path = true ∨ changed.contains d.second.path = true) ∧
      ((∀ site ∈ rest, changed.contains site.path = false) →
        ∃ path ∈ finding.files, changed.contains path = true) := by
  obtain ⟨d, rest, rfl, hplaces, hreported⟩ := exists_duplicate_of_mem_findings h
  have hnames := d.exists_mem_files_finding scope.config.cloneWindow changed
  refine ⟨d, rest, rfl, hplaces, hnames, fun hrest => hnames.mpr ?_⟩
  obtain ⟨site, hmem, hsite⟩ := hreported changed hchanged
  rcases List.mem_cons.mp hmem with rfl | hmem
  · exact Or.inl hsite
  rcases List.mem_cons.mp hmem with rfl | hmem
  · exact Or.inr hsite
  · exact absurd ((hrest site hmem).symm.trans hsite) Bool.false_ne_true

/-- Three files with the same two lines. -/
def triplets (changed : String) : Scope where
  root := ⟨"/p"⟩
  files := ["a.ts", "b.ts", "c.ts"].map fun path => ⟨⟨path⟩, "f(1);\ng(2);\n"⟩
  changed := some ⟨[⟨changed⟩]⟩
  config := { cloneWindow := 2, minCloneChars := 4 }

theorem eligible_triplets (changed : String) :
    eligible (triplets changed).files = (triplets "").files := by
  have hsorted : (triplets "").files.Pairwise fun a b => a.path.le b.path = true := by decide
  exact List.mergeSort_of_pairwise hsorted

-- Whichever of the three has changed, the first two are named.
theorem files_findings_triplets {changed : String} (h : changed ∈ ["a.ts", "b.ts", "c.ts"]) :
    (detect (triplets changed)).findings.map Finding.files = [[⟨"a.ts"⟩, ⟨"b.ts"⟩]] := by
  have hreportable : isReportable (triplets changed) = fun group => group.any fun occurrence =>
      (triplets changed).includes (site (triplets "").files occurrence).path := by
    funext group
    rw [isReportable, eligible_triplets]
  rw [findings_detect, pairs, leadingPairs_eq, eligible_triplets, hreportable]
  clear hreportable
  revert changed
  decide +kernel

-- The file at the second place is named, as it has changed.
theorem names_changed_triplets : ∃ finding ∈ (detect (triplets "b.ts")).findings,
    ∃ (d : Duplicate) (rest : List Site), finding = d.finding 2 ∧
      places (triplets "b.ts") d.hash = d.first :: d.second :: rest ∧
      (d.first.path.same ⟨"b.ts"⟩ = true ∨ d.second.path.same ⟨"b.ts"⟩ = true) := by
  have hmem : [⟨"a.ts"⟩, ⟨"b.ts"⟩] ∈ (detect (triplets "b.ts")).findings.map Finding.files := by
    rw [files_findings_triplets (by decide)]
    exact List.mem_singleton_self _
  obtain ⟨finding, hfinding, hfiles⟩ := List.mem_map.mp hmem
  obtain ⟨d, rest, heq, hplaces, hnames, -⟩ := names_changed rfl hfinding
  have hcontains (path : Path) (h : (⟨[⟨"b.ts"⟩]⟩ : PathSet).contains path = true) :
      path.same ⟨"b.ts"⟩ = true := by
    rwa [PathSet.contains, List.any_cons, List.any_nil, Bool.or_false, Path.same_comm] at h
  have hnamed : ∃ path ∈ finding.files, (⟨[⟨"b.ts"⟩]⟩ : PathSet).contains path = true := by
    rw [hfiles]
    decide
  exact ⟨finding, hfinding, d, rest, heq, hplaces,
    (hnames.mp hnamed).imp (hcontains _) (hcontains _)⟩

/-- A change of the third file is reported with the names of the other two. -/
theorem not_names_changed : ¬ ∀ (scope : Scope) (changed : PathSet), scope.changed = some changed →
    ∀ finding ∈ (detect scope).findings, ∃ path ∈ finding.files, changed.contains path = true := by
  intro h
  have hmem : [⟨"a.ts"⟩, ⟨"b.ts"⟩] ∈ (detect (triplets "c.ts")).findings.map Finding.files := by
    rw [files_findings_triplets (by decide)]
    exact List.mem_singleton_self _
  obtain ⟨finding, hfinding, hfiles⟩ := List.mem_map.mp hmem
  have hnames := h _ _ rfl finding hfinding
  rw [hfiles] at hnames
  exact absurd hnames (by decide)

end Scrutiny.Clones
