import Scrutiny.Analysis.Run
import Scrutiny.Proofs.Detect.Clones
import Scrutiny.Proofs.Detect.RuleAttribution
import Scrutiny.Proofs.Detect.Scope
import Scrutiny.Proofs.Tree.Flat

/-!
Incremental runs.  What a detector proposes for two sets of changed files together is what it
proposes for each of them, and with every file changed it proposes what it does in a full run.
-/

namespace Scrutiny

/-! ## 1. Duplicated code -/

namespace Clones

theorem pairwise_file_occurrences (config : AnalysisConfig) (files : List SourceFile) :
    (occurrences config files).Pairwise fun a b => a.file ≤ b.file := by
  rw [occurrences, List.pairwise_flatMap]
  constructor
  · rintro ⟨file, index⟩ -
    refine (pairwise_occurrencesIn config index file.content).imp_of_mem fun ha hb _ => ?_
    rw [file_of_mem_occurrencesIn ha, file_of_mem_occurrencesIn hb]
  · have hindices : files.zipIdx.Pairwise fun a b => a.2 < b.2 := by
      rw [← List.pairwise_map (f := Prod.snd) (R := fun m n : Nat => m < n), List.zipIdx_map_snd]
      exact List.pairwise_lt_range' 1
    refine hindices.imp fun hindex a ha b hb => ?_
    rw [file_of_mem_occurrencesIn ha, file_of_mem_occurrencesIn hb]
    exact Nat.le_of_lt hindex

theorem file_le_of_mem_pairs {scope : Scope} {pair : Pair} (h : pair ∈ pairs scope) :
    pair.first.file ≤ pair.second.file := by
  obtain ⟨rest, hgroup, -⟩ := mem_leadingPairs.mp h
  have hpairs := (pairwise_file_occurrences scope.config (eligible scope.files)).filter
    fun occurrence => occurrence.hash == pair.first.hash
  rw [hgroup] at hpairs
  exact List.rel_of_pairwise_cons hpairs List.mem_cons_self

theorem id_finding (window : Nat) (hash : Int32) (a b : Path × Nat) :
    (finding window hash a b).id =
      Identity.of .simplify s!"duplicated code block ({window}+ lines)"
        ((if a.1.same b.1 then [a.1] else [a.1, b.1]).map Path.text) := rfl

/-- The identity of the finding for a pair. -/
def pairId (scope : Scope) (pair : Pair) : String :=
  ((duplicate (eligible scope.files) pair).finding scope.config.cloneWindow).id

-- It only depends on the two files, as the places of a pair are in order.
theorem pairId_congr {scope : Scope} {p q : Pair} (hp : p ∈ pairs scope) (hq : q ∈ pairs scope)
    (h : p.files = q.files) : pairId scope p = pairId scope q := by
  have hpfiles := file_le_of_mem_pairs hp
  have hqfiles := file_le_of_mem_pairs hq
  obtain ⟨hmin, hmax⟩ := Prod.mk.inj h
  have hfirst : p.first.file = q.first.file := by omega
  have hsecond : p.second.file = q.second.file := by omega
  have hpath {a b : Occurrence} (hfile : a.file = b.file) :
      (site (eligible scope.files) a).path = (site (eligible scope.files) b).path := by
    rw [site, site, hfile]
  simp only [pairId, duplicate, Duplicate.finding, id_finding, hpath hfirst, hpath hsecond]

/-- No identity gets lost when only one pair is kept for each two files. -/
theorem mem_ids_detect {scope : Scope} {id : String} :
    id ∈ (detect scope).ids ↔ ∃ pair ∈ pairs scope, pairId scope pair = id := by
  rw [Detection.ids, Set.mem_ofPred_eq, findings_detect, List.map_map]
  constructor
  · rintro ⟨finding, hfinding, rfl⟩
    obtain ⟨pair, hpair, rfl⟩ := List.mem_map.mp hfinding
    exact ⟨pair, (firstsBy_sublist Pair.files [] _).subset hpair, rfl⟩
  · rintro ⟨pair, hpair, rfl⟩
    obtain ⟨kept, hkept, hfiles⟩ := exists_mem_firstsBy hpair (List.not_mem_nil (a := pair.files))
    refine ⟨_, List.mem_map_of_mem hkept, ?_⟩
    exact pairId_congr ((firstsBy_sublist Pair.files [] _).subset hkept) hpair hfiles

/-- A pair of files goes back to all files that hold the fingerprint of its places. -/
theorem traces_detect (scope : Scope) : scope.Traces detect := by
  let files := eligible scope.files
  refine ⟨fun id file => ∃ pair rest, pairId scope pair = id ∧
    ((occurrences scope.config files).filter fun occurrence =>
      occurrence.hash == pair.first.hash) = pair.first :: pair.second :: rest ∧
    ∃ occurrence ∈ pair.first :: pair.second :: rest, files[occurrence.file]? = some file,
    fun changed id => ?_⟩
  rw [mem_ids_detect]
  constructor
  · rintro ⟨pair, hpair, hid⟩
    obtain ⟨rest, hgroup, hreportable⟩ := mem_leadingPairs.mp hpair
    obtain ⟨occurrence, hmem, hincludes⟩ := List.any_eq_true.mp hreportable
    obtain ⟨file, hfile⟩ := mem_occurrences (List.mem_of_mem_filter (hgroup ▸ hmem))
    refine ⟨file, ?_, ⟨pair, rest, hid, hgroup, occurrence, hmem, hfile⟩, ?_⟩
    · exact List.mem_of_mem_filter
        ((eligible_perm scope.files).mem_iff.mp (List.mem_of_getElem? hfile))
    · rwa [site_of_getElem? hfile] at hincludes
  · rintro ⟨file, -, ⟨pair, rest, hid, hgroup, occurrence, hmem, hfile⟩, hincludes⟩
    refine ⟨pair, mem_leadingPairs.mpr ⟨rest, hgroup, ?_⟩, hid⟩
    refine List.any_eq_true.mpr ⟨occurrence, hmem, ?_⟩
    change (scope.within changed).includes (site files occurrence).path = true
    rwa [site_of_getElem? hfile]

end Clones

/-! ## 2. The standard detectors -/

namespace Detector

/-- The identities that a detector proposes. -/
def proposed (detector : Detector) (tree : Tree) (scope : Scope) : Set String :=
  {id | ∃ detection, detector.run tree scope = .ok detection ∧ id ∈ detection.ids}

theorem proposed_of_ok {detector : Detector} {tree : Tree} {scope : Scope} {detection : Detection}
    (h : detector.run tree scope = .ok detection) :
    detector.proposed tree scope = detection.ids := by
  ext id
  simp [proposed, h]

theorem proposed_of_error {detector : Detector} {tree : Tree} {scope : Scope}
    {error : AnalysisError} (h : detector.run tree scope = .error error) :
    detector.proposed tree scope = ∅ := by
  ext id
  simp [proposed, h]

/-- A standard detector traces what it finds, unless it is the one for rules and these cannot be put
in force. -/
theorem exists_traces_of_mem_standard {engine : PatternEngine} {detector : Detector}
    (h : detector ∈ standard engine) (tree : Tree) (scope : Scope) :
    (∃ detect : Scope → Detection, scope.Traces detect ∧
      ∀ changed, detector.run tree (scope.within changed) =
        .ok (detect (scope.within changed))) ∨
    ∃ error, Rules.build engine (Rules.load tree scope.root scope.config) = .error error ∧
      ∀ changed, detector.run tree (scope.within changed) = .error error := by
  simp only [standard, List.mem_cons, List.not_mem_nil, or_false] at h
  rcases h with rfl | rfl | rfl | rfl
  · exact .inl ⟨Clones.detect, Clones.traces_detect scope, fun _ => rfl⟩
  · refine .inl ⟨_, traces_ofFiles scope (fun _ => true) Secrets.scanFile, fun changed => ?_⟩
    rw [List.filter_true]
    rfl
  · cases hbuild : Rules.build engine (Rules.load tree scope.root scope.config) with
    | ok mined =>
      exact .inl ⟨_, traces_ofFiles scope (fun file => file.path.isSource) (Rules.checkFile mined),
        fun changed => Rules.detectWith_of_build hbuild (scope.within changed)⟩
    | error error =>
      exact .inr ⟨error, rfl, fun changed =>
        Rules.detectWith_of_build_error hbuild (scope.within changed)⟩
  · exact .inl ⟨_, traces_ofFiles scope (fun file => file.path.isScript)
      (fun file => (Imports.checkFile file).toList), fun _ => rfl⟩

/-- A standard detector does not fail if the rules of the project can be put in force.  What it
proposes for the paths of two sets is what it proposes for those of either, and for all paths of the
project it is what it proposes in a full run; where it fails it proposes nothing for any. -/
theorem proposed_union {engine : PatternEngine} {detector : Detector}
    (h : detector ∈ standard engine) (tree : Tree) (scope : Scope) (a b : PathSet) :
    (∀ mined, Rules.build engine (Rules.load tree scope.root scope.config) = .ok mined →
        ∀ changed, ∃ detection, detector.run tree (scope.within changed) = .ok detection) ∧
      detector.proposed tree (scope.within (some (a.union b))) =
        detector.proposed tree (scope.within (some a)) ∪
          detector.proposed tree (scope.within (some b)) ∧
      detector.proposed tree
          (scope.within (some (.ofList (scope.files.map SourceFile.path)))) =
        detector.proposed tree (scope.within none) := by
  rcases exists_traces_of_mem_standard h tree scope with
    ⟨detect, htraces, hrun⟩ | ⟨error, hbuild, hrun⟩
  · simp only [fun changed => proposed_of_ok (hrun changed)]
    exact ⟨fun _ _ changed => ⟨_, hrun changed⟩, htraces.ids_union a b, htraces.ids_all⟩
  · simp only [fun changed => proposed_of_error (hrun changed), Set.union_empty]
    exact ⟨fun mined hmined => absurd (hbuild.symm.trans hmined) (by simp), trivial, trivial⟩

-- One of the two files with a line in common is enough for the pair to be proposed.
theorem proposed_union_twins :
    clones ∈ standard ∧
      (∀ changed, ∃ detection,
        clones.run (.flat []) (Clones.twins.within changed) = .ok detection) ∧
      clones.proposed (.flat []) (Clones.twins.within (some (.union ⟨[⟨"a.ts"⟩]⟩ ⟨[⟨"c.ts"⟩]⟩))) =
        clones.proposed (.flat []) (Clones.twins.within (some ⟨[⟨"a.ts"⟩]⟩)) ∪
          clones.proposed (.flat []) (Clones.twins.within (some ⟨[⟨"c.ts"⟩]⟩)) ∧
      clones.proposed (.flat []) (Clones.twins.within (some (.ofList [⟨"b.ts"⟩, ⟨"a.ts"⟩]))) =
        clones.proposed (.flat []) (Clones.twins.within none) := by
  have hmem : clones ∈ standard := List.mem_cons_self
  obtain ⟨hrun, hlaws⟩ := proposed_union hmem (.flat []) Clones.twins _ _
  exact ⟨hmem, hrun _ (Rules.build_default _), hlaws⟩

end Detector

end Scrutiny
