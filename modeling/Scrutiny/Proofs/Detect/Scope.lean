import Mathlib.Data.Set.Basic
import Scrutiny.Detect.Scope
import Scrutiny.Proofs.Path

/-!
Sets of paths by their members, and detectors whose findings go back to single files.
-/

namespace Scrutiny

/-! ## 1. Sets of paths -/

namespace PathSet

theorem contains_congr {p q : Path} (h : p.same q = true) (set : PathSet) :
    set.contains p = set.contains q := by
  unfold contains
  simp only [Path.same_congr_right h]

theorem contains_insert (set : PathSet) (path other : Path) :
    (set.insert path).contains other = (set.contains other || path.same other) := by
  rw [insert]
  split
  next hmem =>
    -- a path that is the same as the one in the set is in it, too
    obtain ⟨member, hmember, hsame⟩ := List.any_eq_true.mp hmem
    cases hother : path.same other
    · rw [Bool.or_false]
    · rw [Bool.or_true]
      exact List.any_eq_true.mpr ⟨member, hmember, Path.same_trans hsame hother⟩
  next => simp [contains]

theorem contains_foldl_insert (set : PathSet) (paths : List Path) (other : Path) :
    (paths.foldl insert set).contains other =
      (set.contains other || paths.any fun path => path.same other) := by
  induction paths generalizing set with
  | nil => simp
  | cons path paths ih =>
    rw [List.foldl_cons, ih, contains_insert, List.any_cons, Bool.or_assoc]

theorem contains_ofList (paths : List Path) (other : Path) :
    (ofList paths).contains other = paths.any fun path => path.same other := by
  rw [ofList, contains_foldl_insert]
  rfl

def union (a b : PathSet) : PathSet :=
  b.paths.foldl insert a

theorem contains_union (a b : PathSet) (path : Path) :
    (a.union b).contains path = (a.contains path || b.contains path) :=
  contains_foldl_insert a b.paths path

end PathSet

/-! ## 2. Scopes -/

namespace Scope

/-- The same project with other paths changed. -/
def within (scope : Scope) (changed : Option PathSet) : Scope :=
  { scope with changed }

theorem includes_union (scope : Scope) (a b : PathSet) (path : Path) :
    (scope.within (some (a.union b))).includes path =
      ((scope.within (some a)).includes path || (scope.within (some b)).includes path) :=
  PathSet.contains_union a b path

-- The set of all paths of the project leaves out none of its files.
theorem includes_all {scope : Scope} {file : SourceFile} (h : file ∈ scope.files) :
    (scope.within (some (.ofList (scope.files.map SourceFile.path)))).includes file.path =
      true := by
  rw [includes, within]
  dsimp only
  rw [PathSet.contains_ofList, List.any_eq_true]
  exact ⟨file.path, List.mem_map_of_mem h, Path.same_self _⟩

end Scope

/-! ## 3. Findings that go back to files -/

@[simp] theorem Detection.findings_of (findings : List Finding) (filesExamined : Nat) :
    (of findings filesExamined).findings = findings := rfl

@[simp] theorem Detection.findingsMade_of (findings : List Finding) (filesExamined : Nat) :
    (of findings filesExamined).findingsMade = findings.length := rfl

/-- The identities of what was found. -/
def Detection.ids (detection : Detection) : Set String :=
  {id | ∃ finding ∈ detection.findings, finding.id = id}

/-- Each identity goes back to files of the project, and is found if one of these is in scope. -/
def Scope.Traces (scope : Scope) (detect : Scope → Detection) : Prop :=
  ∃ source : String → SourceFile → Prop, ∀ changed id,
    id ∈ (detect (scope.within changed)).ids ↔
      ∃ file ∈ scope.files, source id file ∧ (scope.within changed).includes file.path = true

namespace Scope.Traces

variable {scope : Scope} {detect : Scope → Detection}

theorem ids_union (h : scope.Traces detect) (a b : PathSet) :
    (detect (scope.within (some (a.union b)))).ids =
      (detect (scope.within (some a))).ids ∪ (detect (scope.within (some b))).ids := by
  obtain ⟨source, hsource⟩ := h
  ext id
  rw [Set.mem_union, hsource, hsource, hsource]
  simp only [includes_union, Bool.or_eq_true]
  grind

theorem ids_all (h : scope.Traces detect) :
    (detect (scope.within (some (.ofList (scope.files.map SourceFile.path))))).ids =
      (detect (scope.within none)).ids := by
  obtain ⟨source, hsource⟩ := h
  ext id
  rw [hsource, hsource]
  refine exists_congr fun file => and_congr_right fun hfile => and_congr_right fun _ => ?_
  rw [includes_all hfile]
  rfl

end Scope.Traces

/-- A check of single files traces what it finds to them. -/
theorem traces_ofFiles (scope : Scope) (applies : SourceFile → Bool)
    (check : SourceFile → List Finding) :
    scope.Traces fun scope => .ofFiles (scope.targets.filter applies) check := by
  refine ⟨fun id file => applies file = true ∧ ∃ finding ∈ check file, finding.id = id,
    fun changed id => ?_⟩
  simp only [Detection.ids, Detection.ofFiles, Detection.findings_of, Set.mem_ofPred_eq,
    List.mem_flatMap, List.mem_filter, Scope.targets, Scope.within]
  grind

end Scrutiny
