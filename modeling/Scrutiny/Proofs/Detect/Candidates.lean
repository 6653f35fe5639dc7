import Scrutiny.Detect.Coverage
import Scrutiny.Proofs.Joining
import Scrutiny.Proofs.Watch.RuleDocuments

/-!
Suggested tests.  The files that would cover a new file stand beside it or in a directory of tests
there, and are tests themselves; so the classification, the suggestion and the search for tests all
agree that none of them needs any.
-/

namespace Scrutiny

/-! ## 1. Names of tests -/

theorem Text.occursIn_iff (part text : List Char) : occursIn part text = true ↔ part <:+: text := by
  induction text with
  | nil => rw [occursIn, List.isEmpty_iff, List.infix_nil]
  | cons c rest ih =>
    rw [occursIn, Bool.or_eq_true, List.isPrefixOf_iff_prefix, ih, List.infix_cons_iff]

namespace Path

variable {p q : Path}

theorem fileName_congr (h : p.same q = true) : p.fileName = q.fileName := by
  unfold fileName
  rw [fileName?_congr h]

theorem isTest_congr (h : p.same q = true) : p.isTest = q.isTest := by
  unfold isTest nameHas
  rw [fileName_congr h, hasComponent_congr h]

theorem isSource_congr (h : p.same q = true) : p.isSource = q.isSource := by
  unfold isSource hasExtensionIn
  rw [extension?_congr h]

theorem isSource_iff {path : Path} :
    path.isSource = true ↔
      ∃ extension ∈ sourceExtensions, path.extension? = some extension := by
  unfold isSource hasExtensionIn
  rw [Option.any_eq_true]
  simp only [List.contains_iff_mem, and_comm]

theorem isManifest_of_isSource {path : Path} (h : path.isSource = true) :
    path.isManifest = false := by
  have hother : ∀ extension ∈ sourceExtensions, extension ∉ manifestExtensions := by decide
  obtain ⟨extension, hsource, hextension⟩ := isSource_iff.mp h
  exact isManifest_of_extension? (hother extension hsource) hextension

theorem ne_md_of_isSource {path : Path} (h : path.isSource = true) :
    (path.extension? == some "md") = false := by
  obtain ⟨extension, hsource, hextension⟩ := isSource_iff.mp h
  rw [hextension, beq_eq_false_iff_ne, ne_eq, Option.some.injEq]
  rintro rfl
  exact absurd hsource (by decide)

end Path

/-! ## 2. Classification -/

namespace WatchEvent

variable {event : WatchEvent}

theorem classify_of_isSource (hunlink : event.isUnlink = false) (h : event.path.isSource = true) :
    event.classify =
      if event.path.isTest then ⟨.checkRules, s!"test file {event.path.text} updated"⟩
      else if event.kind = .add then ⟨.suggestTest, s!"new source file {event.path.text}"⟩
      else ⟨.checkRules, s!"{event.path.text} modified"⟩ := by
  unfold classify
  simp only [hunlink, Path.isManifest_of_isSource h, Path.ne_md_of_isSource h, h, if_true,
    Bool.false_eq_true, if_false]

end WatchEvent

namespace Coverage

/-! ## 3. Candidates -/

theorem needsTests_iff {path : Path} : needsTests path = true ↔
    path.isSource = true ∧ path.isTest = false ∧ path.nameEndsWith ".d.ts" = false := by
  unfold needsTests
  rw [Bool.and_eq_true, Bool.and_eq_true, Bool.not_eq_true', Bool.not_eq_true', and_assoc]

theorem needsTests_of_isTest {path : Path} (h : path.isTest = true) : needsTests path = false := by
  unfold needsTests
  rw [h, Bool.not_true, Bool.and_false, Bool.false_and]

/-- What stands between the stem and the extension of a test's name. -/
def testMarks : List String := [".test.", ".spec."]

theorem isTest_of_components {path : Path} {front : List Component} {stem mark extension : String}
    (hmark : mark ∈ testMarks)
    (h : path.components = front ++ [.normal (stem ++ mark ++ extension)]) :
    path.isTest = true := by
  have hname := Path.fileName?_of_components h
  have hinfix : mark.toList <:+: (stem ++ mark ++ extension).toList := by
    rw [String.toList_append, String.toList_append]
    exact List.infix_append _ _ _
  have hhas : path.nameHas mark = true := by
    unfold Path.nameHas Path.fileName
    rw [hname]
    exact (Text.occursIn_iff _ _).mpr hinfix
  unfold Path.isTest
  simp only [testMarks, List.mem_cons, List.not_mem_nil, or_false] at hmark
  rcases hmark with rfl | rfl <;> simp [hhas]

theorem isSource_of_components {path : Path} {front : List Component}
    {stem mark extension : String} (hmark : mark ∈ testMarks)
    (hsource : extension ∈ sourceExtensions)
    (h : path.components = front ++ [.normal (stem ++ mark ++ extension)]) :
    path.isSource = true := by
  have hdots : ∀ extension ∈ sourceExtensions, '.' ∉ extension.toList := by decide
  have hmarks : ∀ mark ∈ testMarks, mark.toList = mark.toList.dropLast ++ ['.'] ∧
      mark.toList.dropLast ≠ [] := by decide
  obtain ⟨hend, hne⟩ := hmarks mark hmark
  have hchars : (stem ++ mark ++ extension).toList =
      (stem.toList ++ mark.toList.dropLast) ++ '.' :: extension.toList := by
    rw [String.toList_append, String.toList_append, hend]
    simp
  refine Path.isSource_iff.mpr ⟨extension, hsource, ?_⟩
  rw [Path.extension?_of_fileName? (Path.fileName?_of_components h) hchars (by simp [hne])
    (hdots extension hsource), String.ofList_toList]

/-- The candidates of a path stand beside it, or in the directory of tests there. -/
theorem components_candidates {path : Path} {extension : String}
    (h : path.extension? = some extension) :
    ∃ dir stem, path.components = dir ++ [.normal (stem ++ "." ++ extension)] ∧
      (candidates path).map Path.components =
        [dir ++ [.normal (stem ++ ".test." ++ extension)],
          dir ++ [.normal (stem ++ ".spec." ++ extension)],
          dir ++ [.normal "__tests__"] ++ [.normal (stem ++ ".test." ++ extension)]] := by
  obtain ⟨stem, name, hstem, hname, hchars, -, -⟩ := Path.exists_stem_of_extension? h
  obtain ⟨parent, hparent, hcomponents⟩ := Path.exists_parent? hname
  have hslash : '/' ∉ name.toList :=
    Path.slash_not_mem_of_normal (hcomponents ▸ List.mem_append_right _ List.mem_cons_self)
  rw [hchars, List.mem_append, List.mem_cons, not_or, not_or] at hslash
  have htest : ∀ mark ∈ testMarks, (Path.mk (stem ++ mark ++ extension)).lead = [] ∧
      (Path.mk (stem ++ mark ++ extension)).components =
        [.normal (stem ++ mark ++ extension)] := by
    intro mark hmark
    have hmarks : ∀ mark ∈ testMarks, '/' ∉ mark.toList ∧ 2 < mark.toList.length := by decide
    obtain ⟨hmarkSlash, hmarkLength⟩ := hmarks mark hmark
    apply Path.of_name
    · simp [hslash, hmarkSlash]
    · simp only [String.toList_append, List.length_append]
      omega
  obtain ⟨htestLead, htestComponents⟩ := htest ".test." (by decide)
  obtain ⟨hspecLead, hspecComponents⟩ := htest ".spec." (by decide)
  obtain ⟨hdirLead, hdirComponents⟩ : (Path.mk "__tests__").lead = [] ∧
      (Path.mk "__tests__").components = [.normal "__tests__"] :=
    Path.of_name (by decide) (by decide)
  refine ⟨parent.components, stem, ?_, ?_⟩
  · have hwhole : name = stem ++ "." ++ extension := by
      rw [← String.toList_inj, hchars, String.toList_append, String.toList_append,
        List.append_assoc]
      rfl
    rw [hcomponents, hwhole]
  · unfold candidates
    rw [hstem, h, hparent]
    simp only [List.map_cons, List.map_nil, Option.getD_some, Path.components_join htestLead,
      Path.components_join hspecLead, Path.components_join hdirLead, htestComponents,
      hspecComponents, hdirComponents]

theorem mem_candidates {path candidate : Path} (h : path.isSource = true)
    (hcandidate : candidate ∈ candidates path) :
    candidate.isTest = true ∧ candidate.isSource = true := by
  obtain ⟨extension, hsource, hextension⟩ := Path.isSource_iff.mp h
  obtain ⟨dir, stem, -, hcandidates⟩ := components_candidates hextension
  have hmem : candidate.components ∈ (candidates path).map Path.components :=
    List.mem_map_of_mem hcandidate
  rw [hcandidates] at hmem
  obtain ⟨front, mark, hmark, hcomponents⟩ : ∃ front mark, mark ∈ testMarks ∧
      candidate.components = front ++ [.normal (stem ++ mark ++ extension)] := by
    simp only [List.mem_cons, List.not_mem_nil, or_false] at hmem
    rcases hmem with hmem | hmem | hmem
    · exact ⟨_, _, List.mem_cons_self, hmem⟩
    · exact ⟨_, _, List.mem_cons_of_mem _ List.mem_cons_self, hmem⟩
    · exact ⟨_, _, List.mem_cons_self, hmem⟩
  exact ⟨isTest_of_components hmark hcomponents, isSource_of_components hmark hsource hcomponents⟩

/-! ## 4. Suggestions -/

theorem suggest_of_not_needsTests (tree : Tree) (root : Path) {path : Path}
    (h : needsTests path = false) : suggest tree root path = none := by
  unfold suggest
  rw [h]
  rfl

theorem suggest_of_needsTests (tree : Tree) (root : Path) {path : Path}
    (h : needsTests path = true) :
    (suggest tree root path = none ↔
      ∃ candidate ∈ candidates path, tree.isFile (root.join candidate) = true) ∧
    ∀ finding, suggest tree root path = some finding →
      finding.category = .test ∧ finding.files = [path] ∧ finding.location = some path.text := by
  have hsource := (needsTests_iff.mp h).1
  have hne : candidates path ≠ [] := by
    obtain ⟨extension, -, hextension⟩ := Path.isSource_iff.mp hsource
    obtain ⟨dir, stem, -, hcandidates⟩ := components_candidates hextension
    intro hnone
    rw [hnone] at hcandidates
    exact absurd hcandidates (by simp)
  obtain ⟨expected, others, hcandidates⟩ := List.exists_cons_of_ne_nil hne
  unfold suggest
  rw [h, hcandidates]
  dsimp only
  rw [if_neg (by simp), ← List.any_eq_true]
  cases (expected :: others).any fun candidate => tree.isFile (root.join candidate) with
  | false =>
    refine ⟨by simp, fun finding hfinding => ?_⟩
    rw [if_neg Bool.false_ne_true, Option.some.injEq] at hfinding
    subst hfinding
    exact ⟨rfl, rfl, rfl⟩
  | true => exact ⟨by simp, fun finding hfinding => absurd hfinding (by simp)⟩

/-- What follows from the suggestion to test a path. -/
structure Suggests (path : Path) : Prop where
  /-- When the file is new, tests are suggested. -/
  classify (timestamp : Nat) : (WatchEvent.mk .add path timestamp).classify =
    ⟨.suggestTest, s!"new source file {path.text}"⟩
  places : ∃ dir stem extension,
    path.components = dir ++ [.normal (stem ++ "." ++ extension)] ∧
    (candidates path).map Path.components =
      [dir ++ [.normal (stem ++ ".test." ++ extension)],
        dir ++ [.normal (stem ++ ".spec." ++ extension)],
        dir ++ [.normal "__tests__"] ++ [.normal (stem ++ ".test." ++ extension)]]
  isTest : ∀ candidate ∈ candidates path, candidate.isTest = true
  needsNone : ∀ candidate ∈ candidates path, needsTests candidate = false
  /-- When a candidate is written, its rules are checked. -/
  checked (event : WatchEvent) : event.isUnlink = false →
    (∃ candidate ∈ candidates path, event.path.same candidate = true) →
    event.classify = ⟨.checkRules, s!"test file {event.path.text} updated"⟩
  /-- Nothing is suggested for a batch of candidates. -/
  untested (ruleDocuments : List Path) (batch : EventBatch) :
    (∀ event ∈ batch.events, ∃ candidate ∈ candidates path, event.path.same candidate = true) →
    (BatchPlan.ofBatch ruleDocuments batch).untested = []
  covered (tree : Tree) (root : Path) : suggest tree root path = none ↔
    ∃ candidate ∈ candidates path, tree.isFile (root.join candidate) = true
  proposes (tree : Tree) (root : Path) (finding : Finding) :
    suggest tree root path = some finding →
    finding.category = .test ∧ finding.files = [path] ∧ finding.location = some path.text
  settled (tree : Tree) (root : Path) :
    ∀ candidate ∈ candidates path, suggest tree root candidate = none

/-- To follow a suggestion settles it: none of the files that would do calls for another. -/
theorem suggests_of_needsTests {path : Path} (h : Coverage.needsTests path = true) :
    Suggests path := by
  obtain ⟨hsource, htest, -⟩ := needsTests_iff.mp h
  obtain ⟨extension, -, hextension⟩ := Path.isSource_iff.mp hsource
  obtain ⟨dir, stem, hpath, hplaces⟩ := components_candidates hextension
  have htests : ∀ candidate ∈ candidates path, candidate.isTest = true :=
    fun _ hcandidate => (mem_candidates hsource hcandidate).1
  have hnone : ∀ candidate ∈ candidates path, Coverage.needsTests candidate = false :=
    fun _ hcandidate => needsTests_of_isTest (htests _ hcandidate)
  have hchecked : ∀ event : WatchEvent, event.isUnlink = false →
      (∃ candidate ∈ candidates path, event.path.same candidate = true) →
      event.classify = ⟨.checkRules, s!"test file {event.path.text} updated"⟩ := by
    rintro event hunlink ⟨candidate, hcandidate, hsame⟩
    obtain ⟨hcandidateTest, hcandidateSource⟩ := mem_candidates hsource hcandidate
    rw [← Path.isTest_congr hsame] at hcandidateTest
    rw [← Path.isSource_congr hsame] at hcandidateSource
    rw [WatchEvent.classify_of_isSource hunlink hcandidateSource, if_pos hcandidateTest]
  refine {
    classify := fun timestamp => ?_
    places := ⟨dir, stem, extension, hpath, hplaces⟩
    isTest := htests
    needsNone := hnone
    checked := hchecked
    untested := fun ruleDocuments batch hevents => ?_
    covered := fun tree root => (suggest_of_needsTests tree root h).1
    proposes := fun tree root => (suggest_of_needsTests tree root h).2
    settled := fun tree root candidate hcandidate =>
      suggest_of_not_needsTests tree root (hnone _ hcandidate)
  }
  · have hadded : (WatchEvent.mk .add path timestamp).isUnlink = false := rfl
    rw [WatchEvent.classify_of_isSource hadded hsource, if_neg (by simp [htest]), if_pos rfl]
  · unfold BatchPlan.ofBatch
    rw [List.map_eq_nil_iff, List.filter_eq_nil_iff]
    intro event hevent
    rw [decide_eq_true_eq]
    cases hunlink : event.isUnlink with
    | true => simp [WatchEvent.classify, hunlink]
    | false => simp [hchecked event hunlink (hevents event hevent)]

theorem suggests_manifestLike :
    Coverage.needsTests ⟨"src/package.json.ts"⟩ = true ∧ Suggests ⟨"src/package.json.ts"⟩ ∧
      candidates ⟨"src/package.json.ts"⟩ = [⟨"src/package.json.test.ts"⟩,
        ⟨"src/package.json.spec.ts"⟩, ⟨"src/__tests__/package.json.test.ts"⟩] :=
  ⟨by decide, suggests_of_needsTests (by decide), by decide⟩

end Coverage

end Scrutiny
