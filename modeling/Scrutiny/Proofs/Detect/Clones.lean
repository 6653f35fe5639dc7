import Mathlib.Data.List.Pairwise
import Scrutiny.Detect.Clones
import Scrutiny.Proofs.Firsts
import Scrutiny.Proofs.Path
import Scrutiny.Proofs.Text.Lines

/-!
What the search for duplicated code finds, said without its tables and indices: of each fingerprint
the first two of its places in the whole project, and of each two files the earliest such pair.
The order in which the files are given does not matter.
-/

namespace Scrutiny.Clones

open Text

/-- No two files have the same path. -/
def DistinctPaths (files : List SourceFile) : Prop :=
  files.Pairwise fun a b => a.path.same b.path = false

theorem DistinctPaths.perm {files₁ files₂ : List SourceFile} (h : DistinctPaths files₁)
    (hperm : files₁.Perm files₂) : DistinctPaths files₂ := by
  refine (hperm.pairwise_iff fun {a b} hab => ?_).mp h
  rwa [Path.same_comm]

/-! ## 1. The report -/

/-- A place in a project. -/
structure Site where
  path : Path
  line : Nat
  deriving DecidableEq, Repr

namespace Site

def order (a b : Site) : Ordering :=
  (a.path.order b.path).then (compare a.line b.line)

def le (a b : Site) : Bool :=
  (a.order b).isLE

def Before (a b : Site) : Prop :=
  a.order b = .lt

end Site

/-- The normal form of the window is long enough and has the fingerprint. -/
def HasPrint (minChars : Nat) (window : List (List Char)) (hash : Int32) : Prop :=
  let normal := Normal.chars (['\n'].intercalate window)
  minChars ≤ (String.ofList normal).utf8ByteSize ∧ Fingerprint.ofChars normal = hash

instance (minChars : Nat) (window : List (List Char)) (hash : Int32) :
    Decidable (HasPrint minChars window hash) :=
  inferInstanceAs (Decidable (_ ∧ _))

/-- The first lines of the windows of a text that have a fingerprint. -/
def linesWith (config : AnalysisConfig) (hash : Int32) (content : String) : List Nat :=
  let rows := lines content.toList
  (List.range' 1 (rows.length + 1 - config.cloneWindow)).filter fun line =>
    HasPrint config.minCloneChars ((rows.drop (line - 1)).take config.cloneWindow) hash

/-- The places of one file that have a fingerprint. -/
def sitesIn (config : AnalysisConfig) (hash : Int32) (file : SourceFile) : List Site :=
  (linesWith config hash file.content).map (Site.mk file.path)

/-- The places of a project that have a fingerprint, in order. -/
def sites (scope : Scope) (hash : Int32) : List Site :=
  ((scope.files.filter fun file => file.path.isSource && !file.path.isTest).flatMap
    (sitesIn scope.config hash)).mergeSort Site.le

/-- Two places with the same fingerprint. -/
structure Duplicate where
  hash : Int32
  first : Site
  second : Site
  deriving DecidableEq, Repr

namespace Duplicate

/-- What is said about two places, given the length of windows. -/
def finding (window : Nat) (duplicate : Duplicate) : Finding :=
  Clones.finding window duplicate.hash (duplicate.first.path, duplicate.first.line)
    (duplicate.second.path, duplicate.second.line)

/-- The same two files, in any order. -/
def SameFiles (d e : Duplicate) : Prop :=
  (d.first.path.same e.first.path ∧ d.second.path.same e.second.path) ∨
    (d.first.path.same e.second.path ∧ d.second.path.same e.first.path)

/-- The first two places of a fingerprint, one of whose places is in a changed file if only those
are asked for. -/
structure IsLeading (scope : Scope) (duplicate : Duplicate) : Prop where
  sites_eq : ∃ rest, sites scope duplicate.hash = duplicate.first :: duplicate.second :: rest
  changed : ∀ changed, scope.changed = some changed →
    ∃ site ∈ sites scope duplicate.hash, changed.contains site.path = true

end Duplicate

/-- The duplicates to be reported: for each two files that hold the first two places of a
fingerprint, the pair whose first place comes first; in the order of the first places. -/
structure IsReport (scope : Scope) (duplicates : List Duplicate) : Prop where
  ordered : duplicates.Pairwise fun d e => d.first.Before e.first
  mem_iff : ∀ d, d ∈ duplicates ↔ d.IsLeading scope ∧
    ∀ e : Duplicate, e.IsLeading scope → e.SameFiles d → ¬ e.first.Before d.first
  complete : ∀ d : Duplicate, d.IsLeading scope → ∃ e ∈ duplicates, e.SameFiles d
  distinct : duplicates.Pairwise fun d e => ¬ d.SameFiles e

/-! ## 2. Places -/

namespace Site

theorem order_eq_compareLex :
    order = compareLex (compareOn path) (compareOn line) := rfl

instance : Std.TransCmp order := by
  rw [order_eq_compareLex]
  infer_instance

theorem Before.asymm {a b : Site} (h : a.Before b) : ¬ b.Before a := by
  intro hba
  have hswap : a.order b = (b.order a).swap := Std.OrientedCmp.eq_swap
  rw [show a.order b = .lt from h, show b.order a = .lt from hba] at hswap
  exact absurd hswap (by decide)

theorem le_of_before {a b : Site} (h : a.Before b) : a.le b = true := by
  rw [le, show a.order b = .lt from h]
  rfl

theorem le_total (a b : Site) : (a.le b || b.le a) = true := by
  have hswap : a.order b = (b.order a).swap := Std.OrientedCmp.eq_swap
  rw [le, le, hswap]
  cases b.order a <;> rfl

theorem before_of_path {a b : Site} (h : a.path.order b.path = .lt) : a.Before b := by
  rw [Before, order, h]
  rfl

theorem before_of_line {path : Path} {m n : Nat} (h : m < n) : Before ⟨path, m⟩ ⟨path, n⟩ := by
  have hpath : path.order path = .eq := Path.order_eq_eq.mpr (Path.same_self path)
  rw [Before, order, hpath]
  exact Nat.compare_eq_lt.mpr h

end Site

/-! ## 3. Windows -/

theorem fingerprint?_eq_some {minChars : Nat} {window : List (List Char)} {hash : Int32} :
    fingerprint? minChars window = some hash ↔ HasPrint minChars window hash := by
  simp [fingerprint?, HasPrint]

theorem windows_eq_map {α : Type} {size : Nat} (hsize : 1 ≤ size) (items : List α) :
    windows size items =
      (List.range (items.length + 1 - size)).map fun i => (items.drop i).take size := by
  induction items with
  | nil =>
    rw [windows, List.length_nil, show 0 + 1 - size = 0 by omega]
    rfl
  | cons item items ih =>
    rw [windows]
    by_cases hlong : size ≤ items.length + 1
    · have hlength : size ≠ 0 ∧ ((item :: items).take size).length = size := by
        rw [List.length_take, List.length_cons]
        omega
      rw [if_pos hlength, ih, List.length_cons,
        show items.length + 1 + 1 - size = items.length + 1 - size + 1 by omega,
        List.range_succ_eq_map]
      simp [Function.comp_def]
    · have hlength : ¬ (size ≠ 0 ∧ ((item :: items).take size).length = size) := by
        rw [List.length_take, List.length_cons]
        omega
      rw [if_neg hlength, List.length_cons, show items.length + 1 + 1 - size = 0 by omega]
      rfl

theorem numbered_windows {α : Type} {size : Nat} (hsize : 1 ≤ size) (items : List α) :
    numbered (windows size items) = (List.range' 1 (items.length + 1 - size)).map fun line =>
      (line, (items.drop (line - 1)).take size) := by
  rw [windows_eq_map hsize, numbered]
  apply List.ext_getElem
  · simp
  · intro i hleft hright
    simp [Nat.add_comm]

/-! ## 4. Occurrences -/

/-- Where an occurrence lies, given the compared files. -/
def site (files : List SourceFile) (occurrence : Occurrence) : Site :=
  ⟨((files.toArray[occurrence.file]?).map SourceFile.path).getD ⟨""⟩, occurrence.line⟩

theorem site_of_getElem? {files : List SourceFile} {file : SourceFile} {occurrence : Occurrence}
    (h : files[occurrence.file]? = some file) :
    site files occurrence = ⟨file.path, occurrence.line⟩ := by
  rw [site, List.getElem?_toArray, h]
  rfl

theorem occurrencesIn_eq {config : AnalysisConfig} (hwindow : 1 ≤ config.cloneWindow)
    (index : Nat) (content : String) :
    occurrencesIn config index content =
      (List.range' 1 ((lines content.toList).length + 1 - config.cloneWindow)).filterMap
        fun line => (fingerprint? config.minCloneChars
          (((lines content.toList).drop (line - 1)).take config.cloneWindow)).map
            fun hash => ⟨hash, index, line⟩ := by
  rw [occurrencesIn, numbered_windows hwindow, List.filterMap_map]
  rfl

theorem file_of_mem_occurrencesIn {config : AnalysisConfig} {index : Nat} {content : String}
    {occurrence : Occurrence} (h : occurrence ∈ occurrencesIn config index content) :
    occurrence.file = index := by
  obtain ⟨⟨line, window⟩, -, hmap⟩ := List.mem_filterMap.mp h
  obtain ⟨hash, -, rfl⟩ := Option.map_eq_some_iff.mp hmap
  rfl

theorem pairwise_occurrencesIn (config : AnalysisConfig) (index : Nat) (content : String) :
    (occurrencesIn config index content).Pairwise fun a b => a.line < b.line := by
  rw [occurrencesIn, List.pairwise_filterMap]
  refine (pairwise_numbered _).imp fun hlines a ha b hb => ?_
  obtain ⟨_, -, rfl⟩ := Option.map_eq_some_iff.mp ha
  obtain ⟨_, -, rfl⟩ := Option.map_eq_some_iff.mp hb
  exact hlines

-- The occurrences of one fingerprint in one file.
theorem filter_occurrencesIn {config : AnalysisConfig} (hwindow : 1 ≤ config.cloneWindow)
    (hash : Int32) (index : Nat) (content : String) :
    (occurrencesIn config index content).filter (fun occurrence => occurrence.hash == hash) =
      (linesWith config hash content).map fun line => ⟨hash, index, line⟩ := by
  rw [occurrencesIn_eq hwindow, linesWith]
  generalize List.range' 1 _ = candidates
  induction candidates with
  | nil => rfl
  | cons line candidates ih =>
    rw [List.filterMap_cons, List.filter_cons]
    simp only [← fingerprint?_eq_some] at ih ⊢
    cases hprint : fingerprint? config.minCloneChars
        (((lines content.toList).drop (line - 1)).take config.cloneWindow) with
    | none => simpa using ih
    | some print =>
      by_cases heq : print = hash
      · simp [heq, ih]
      · simp [heq, ih]

theorem mem_occurrences {config : AnalysisConfig} {files : List SourceFile}
    {occurrence : Occurrence} (h : occurrence ∈ occurrences config files) :
    ∃ file, files[occurrence.file]? = some file := by
  obtain ⟨⟨file, index⟩, hmem, hin⟩ := List.mem_flatMap.mp h
  have hindex := file_of_mem_occurrencesIn hin
  subst hindex
  exact ⟨file, List.mk_mem_zipIdx_iff_getElem?.mp hmem⟩

/-- The occurrences of one fingerprint lie at its places, file by file. -/
theorem map_site_filter_occurrences {config : AnalysisConfig} (hwindow : 1 ≤ config.cloneWindow)
    (hash : Int32) (files : List SourceFile) :
    ((occurrences config files).filter fun occurrence => occurrence.hash == hash).map (site files) =
      files.flatMap (sitesIn config hash) := by
  rw [occurrences, List.filter_flatMap, List.map_flatMap]
  have hfile : ∀ entry ∈ files.zipIdx,
      ((occurrencesIn config entry.2 entry.1.content).filter
        fun occurrence => occurrence.hash == hash).map (site files) =
        sitesIn config hash entry.1 := by
    rintro ⟨file, index⟩ hmem
    rw [filter_occurrencesIn hwindow, List.map_map, sitesIn]
    refine List.map_congr_left fun line _ => ?_
    exact site_of_getElem? (List.mk_mem_zipIdx_iff_getElem?.mp hmem)
  calc files.zipIdx.flatMap _
      = files.zipIdx.flatMap fun entry => sitesIn config hash entry.1 := List.flatMap_congr hfile
    _ = (files.zipIdx.map Prod.fst).flatMap (sitesIn config hash) := by rw [List.flatMap_map]
    _ = files.flatMap (sitesIn config hash) := by rw [List.zipIdx_map_fst]

/-! ## 5. Order -/

/-- Files in the order of their paths, no path twice. -/
def InOrder (files : List SourceFile) : Prop :=
  files.Pairwise fun a b => a.path.order b.path = .lt

theorem eligible_perm (files : List SourceFile) :
    (eligible files).Perm (files.filter fun file => file.path.isSource && !file.path.isTest) :=
  List.mergeSort_perm _ _

theorem inOrder_eligible {files : List SourceFile}
    (hpaths : DistinctPaths files) :
    InOrder (eligible files) := by
  have hsorted : (eligible files).Pairwise fun a b => a.path.le b.path = true :=
    @List.pairwise_mergeSort SourceFile (fun a b => a.path.le b.path)
      (fun _ _ _ => Path.le_trans) (fun _ _ => Path.le_total _ _) _
  have hdifferent : DistinctPaths (eligible files) :=
    DistinctPaths.perm (hpaths.sublist List.filter_sublist) (eligible_perm files).symm
  exact (hsorted.and hdifferent).imp fun h => Path.order_eq_lt_of_le h.1 h.2

theorem pairwise_sitesIn {config : AnalysisConfig} {hash : Int32} {files : List SourceFile}
    (h : InOrder files) : (files.flatMap (sitesIn config hash)).Pairwise Site.Before := by
  rw [List.pairwise_flatMap]
  constructor
  · intro file _
    rw [sitesIn, List.pairwise_map, linesWith]
    exact ((List.pairwise_lt_range' 1).filter _).imp Site.before_of_line
  · refine h.imp fun hpath a ha b hb => ?_
    obtain ⟨_, -, rfl⟩ := List.mem_map.mp ha
    obtain ⟨_, -, rfl⟩ := List.mem_map.mp hb
    exact Site.before_of_path hpath

theorem pairwise_occurrences (config : AnalysisConfig) {files : List SourceFile}
    (h : InOrder files) :
    (occurrences config files).Pairwise fun a b => (site files a).Before (site files b) := by
  rw [occurrences, List.pairwise_flatMap]
  constructor
  · rintro ⟨file, index⟩ hmem
    have hfile := List.mk_mem_zipIdx_iff_getElem?.mp hmem
    refine (pairwise_occurrencesIn config index file.content).imp_of_mem fun ha hb hline => ?_
    rw [site_of_getElem? (by rwa [file_of_mem_occurrencesIn ha]),
      site_of_getElem? (by rwa [file_of_mem_occurrencesIn hb])]
    exact Site.before_of_line hline
  · have hentries : files.zipIdx.Pairwise fun a b => a.1.path.order b.1.path = .lt := by
      have hfirst : (files.zipIdx.map Prod.fst).Pairwise
          fun a b : SourceFile => a.path.order b.path = .lt := by
        rw [List.zipIdx_map_fst]
        exact h
      exact List.pairwise_map.mp hfirst
    refine hentries.imp_of_mem fun hmemA hmemB hpath a ha b hb => ?_
    rw [site_of_getElem? (by
        rw [file_of_mem_occurrencesIn ha]
        exact List.mk_mem_zipIdx_iff_getElem?.mp hmemA),
      site_of_getElem? (by
        rw [file_of_mem_occurrencesIn hb]
        exact List.mk_mem_zipIdx_iff_getElem?.mp hmemB)]
    exact Site.before_of_path hpath

theorem pairwise_sites (scope : Scope) (hash : Int32) :
    (sites scope hash).Pairwise fun a b => a.le b = true :=
  @List.pairwise_mergeSort Site Site.le (fun _ _ _ => Std.TransCmp.isLE_trans) Site.le_total _

-- Sorting the places of all files at once gives them file by file.
theorem sites_eq_flatMap {scope : Scope}
    (hpaths : DistinctPaths scope.files) (hash : Int32) :
    sites scope hash = (eligible scope.files).flatMap (sitesIn scope.config hash) := by
  have hbefore : ((eligible scope.files).flatMap (sitesIn scope.config hash)).Pairwise
      Site.Before := pairwise_sitesIn (inOrder_eligible hpaths)
  have hperm : (sites scope hash).Perm
      ((eligible scope.files).flatMap (sitesIn scope.config hash)) :=
    (List.mergeSort_perm _ _).trans ((eligible_perm scope.files).symm.flatMap_right _)
  refine List.Perm.eq_of_pairwise (fun a b ha hb hab hba => ?_) (pairwise_sites scope hash)
    (hbefore.imp Site.le_of_before) hperm
  -- of two different places one comes before the other
  have hapart : ((eligible scope.files).flatMap (sitesIn scope.config hash)).Pairwise
      fun a b => a.order b ≠ .eq := hbefore.imp fun h heq => by
    rw [show _ = Ordering.lt from h] at heq
    exact absurd heq (by decide)
  have : Std.Symm fun a b : Site => a.order b ≠ .eq :=
    ⟨fun a b h heq => h (Std.OrientedCmp.eq_symm heq)⟩
  by_contra hne
  exact hapart.forall (hperm.mem_iff.mp ha) hb hne (Std.OrientedCmp.isLE_antisymm hab hba)

/-! ## 6. Groups -/

-- The table holds, for each fingerprint, its occurrences in order.
theorem getD_groups (occurrences : List Occurrence) (hash : Int32) :
    (groups occurrences).getD hash [] =
      occurrences.filter fun occurrence => occurrence.hash == hash := by
  induction occurrences with
  | nil => simp [groups]
  | cons occurrence occurrences ih =>
    have hgroups : groups (occurrence :: occurrences) = (groups occurrences).insert
        occurrence.hash (occurrence :: (groups occurrences).getD occurrence.hash []) := rfl
    rw [hgroups, Std.HashMap.getD_insert, List.filter_cons]
    by_cases h : occurrence.hash = hash
    · subst h
      simp [ih]
    · simp [h, ih]

/-- The first two occurrences of a group, at the first of them. -/
def leading? (reportable : List Occurrence → Bool) (occurrence : Occurrence) :
    List Occurrence → Option Pair
  | first :: second :: rest =>
      if first == occurrence && reportable (first :: second :: rest) then some ⟨first, second⟩
      else none
  | _ => none

theorem leading?_eq_some {reportable : List Occurrence → Bool} {occurrence : Occurrence}
    {group : List Occurrence} {pair : Pair} : leading? reportable occurrence group = some pair ↔
      occurrence = pair.first ∧ ∃ rest, group = pair.first :: pair.second :: rest ∧
        reportable (pair.first :: pair.second :: rest) = true := by
  constructor
  · intro h
    fun_cases leading? reportable occurrence group with
    | case1 first second rest hif =>
      rw [leading?, if_pos hif] at h
      cases Option.some.inj h
      rw [Bool.and_eq_true, beq_iff_eq] at hif
      exact ⟨hif.1.symm, rest, rfl, hif.2⟩
    | case2 first second rest hif => simp [leading?, hif] at h
    | case3 => simp [leading?] at h
  · rintro ⟨rfl, rest, rfl, hreportable⟩
    simp [leading?, hreportable]

theorem leadingPairs_eq (reportable : List Occurrence → Bool) (occurrences : List Occurrence) :
    leadingPairs reportable occurrences = occurrences.filterMap fun occurrence =>
      leading? reportable occurrence
        (occurrences.filter fun other => other.hash == occurrence.hash) := by
  simp only [← getD_groups]
  rfl

theorem mem_leadingPairs {reportable : List Occurrence → Bool} {occurrences : List Occurrence}
    {pair : Pair} : pair ∈ leadingPairs reportable occurrences ↔
      ∃ rest, (occurrences.filter fun occurrence => occurrence.hash == pair.first.hash) =
        pair.first :: pair.second :: rest ∧
          reportable (pair.first :: pair.second :: rest) = true := by
  rw [leadingPairs_eq, List.mem_filterMap]
  constructor
  · rintro ⟨occurrence, -, hleading⟩
    obtain ⟨rfl, hgroup⟩ := leading?_eq_some.mp hleading
    exact hgroup
  · rintro ⟨rest, hgroup, hreportable⟩
    have hmem : pair.first ∈ occurrences :=
      List.mem_of_mem_filter (hgroup ▸ List.mem_cons_self)
    exact ⟨pair.first, hmem, leading?_eq_some.mpr ⟨rfl, rest, hgroup, hreportable⟩⟩

theorem occurrences_of_mem_leadingPairs {reportable : List Occurrence → Bool}
    {occurrences : List Occurrence} {pair : Pair} (h : pair ∈ leadingPairs reportable occurrences) :
    pair.first ∈ occurrences ∧ pair.second ∈ occurrences := by
  obtain ⟨rest, hgroup, -⟩ := mem_leadingPairs.mp h
  exact ⟨List.mem_of_mem_filter (hgroup ▸ List.mem_cons_self),
    List.mem_of_mem_filter (hgroup ▸ List.mem_cons_of_mem _ List.mem_cons_self)⟩

-- The pairs stand in the order of their first occurrences.
theorem pairwise_leadingPairs {before : Occurrence → Occurrence → Prop}
    (reportable : List Occurrence → Bool) {occurrences : List Occurrence}
    (h : occurrences.Pairwise before) :
    (leadingPairs reportable occurrences).Pairwise fun p q => before p.first q.first := by
  rw [leadingPairs_eq, List.pairwise_filterMap]
  refine h.imp fun hbefore p hp q hq => ?_
  rwa [← (leading?_eq_some.mp hp).1, ← (leading?_eq_some.mp hq).1]

theorem distinctFiles_eq_firstsBy (named : List (Nat × Nat)) (pairs : List Pair) :
    distinctFiles named pairs = firstsBy Pair.files named pairs := by
  induction pairs generalizing named with
  | nil => rfl
  | cons pair pairs ih => rw [distinctFiles, firstsBy, ih, ih]

/-! ## 7. Pairs and duplicates -/

/-- What a pair of occurrences says, given the compared files. -/
def duplicate (files : List SourceFile) (pair : Pair) : Duplicate :=
  ⟨pair.first.hash, site files pair.first, site files pair.second⟩

/-- Whether a group counts. -/
def isReportable (scope : Scope) (group : List Occurrence) : Bool :=
  group.any fun occurrence => scope.includes (site (eligible scope.files) occurrence).path

/-- The pairs that the project's fingerprints lead to. -/
def pairs (scope : Scope) : List Pair :=
  leadingPairs (isReportable scope) (occurrences scope.config (eligible scope.files))

theorem findings_detect (scope : Scope) :
    (detect scope).findings =
      ((firstsBy Pair.files [] (pairs scope)).map (duplicate (eligible scope.files))).map
        (Duplicate.finding scope.config.cloneWindow) := by
  rw [← distinctFiles_eq_firstsBy, List.map_map]
  rfl

theorem isReportable_iff {scope : Scope} {group : List Occurrence} (hgroup : group ≠ []) :
    isReportable scope group = true ↔ ∀ changed, scope.changed = some changed →
      ∃ place ∈ group.map (site (eligible scope.files)), changed.contains place.path = true := by
  rw [isReportable, List.any_eq_true]
  cases hchanged : scope.changed with
  | none =>
    obtain ⟨occurrence, hmem⟩ := List.exists_mem_of_ne_nil group hgroup
    simpa [Scope.includes, hchanged] using ⟨occurrence, hmem⟩
  | some changed => simp [Scope.includes, hchanged]

theorem InOrder.same_eq_false {files : List SourceFile} (h : InOrder files) {i j : Nat}
    {a b : SourceFile} (hij : i < j) (ha : files[i]? = some a) (hb : files[j]? = some b) :
    a.path.same b.path = false := by
  obtain ⟨hi, rfl⟩ := List.getElem?_eq_some_iff.mp ha
  obtain ⟨hj, rfl⟩ := List.getElem?_eq_some_iff.mp hb
  have horder := List.pairwise_iff_getElem.mp h i j hi hj hij
  rw [← Bool.not_eq_true, ← Path.order_eq_eq, horder]
  exact Ordering.noConfusion

-- Occurrences lie in the same file exactly if their files have the same path.
theorem same_path_iff {config : AnalysisConfig} {files : List SourceFile} (h : InOrder files)
    {a b : Occurrence} (ha : a ∈ occurrences config files) (hb : b ∈ occurrences config files) :
    (site files a).path.same (site files b).path = true ↔ a.file = b.file := by
  obtain ⟨fileA, hfileA⟩ := mem_occurrences ha
  obtain ⟨fileB, hfileB⟩ := mem_occurrences hb
  rw [site_of_getElem? hfileA, site_of_getElem? hfileB]
  constructor
  · intro hsame
    rcases Nat.lt_trichotomy a.file b.file with hlt | heq | hgt
    · rw [h.same_eq_false hlt hfileA hfileB] at hsame
      exact absurd hsame Bool.false_ne_true
    · exact heq
    · rw [Path.same_comm, h.same_eq_false hgt hfileB hfileA] at hsame
      exact absurd hsame Bool.false_ne_true
  · intro hfile
    rw [hfile, hfileB] at hfileA
    cases Option.some.inj hfileA
    exact Path.same_self _

theorem files_eq_iff {config : AnalysisConfig} {files : List SourceFile} (h : InOrder files)
    {reportable : List Occurrence → Bool} {p q : Pair}
    (hp : p ∈ leadingPairs reportable (occurrences config files))
    (hq : q ∈ leadingPairs reportable (occurrences config files)) :
    p.files = q.files ↔ (duplicate files p).SameFiles (duplicate files q) := by
  obtain ⟨hp1, hp2⟩ := occurrences_of_mem_leadingPairs hp
  obtain ⟨hq1, hq2⟩ := occurrences_of_mem_leadingPairs hq
  simp only [Duplicate.SameFiles, duplicate, same_path_iff h hp1 hq1, same_path_iff h hp2 hq2,
    same_path_iff h hp1 hq2, same_path_iff h hp2 hq1, Pair.files, Prod.mk.injEq]
  omega

theorem isLeading_iff {scope : Scope} (hwindow : 1 ≤ scope.config.cloneWindow)
    (hpaths : DistinctPaths scope.files) {d : Duplicate} :
    d.IsLeading scope ↔ ∃ pair ∈ pairs scope, duplicate (eligible scope.files) pair = d := by
  have hsites (hash : Int32) : sites scope hash = ((occurrences scope.config
      (eligible scope.files)).filter fun occurrence => occurrence.hash == hash).map
        (site (eligible scope.files)) := by
    rw [sites_eq_flatMap hpaths, map_site_filter_occurrences hwindow]
  constructor
  · rintro ⟨⟨rest, heq⟩, hchanged⟩
    rw [hsites] at heq hchanged
    obtain ⟨first, tail, hgroup, hfirst, htail⟩ := List.map_eq_cons_iff.mp heq
    obtain ⟨second, others, rfl, hsecond, -⟩ := List.map_eq_cons_iff.mp htail
    have hhash : first.hash = d.hash := by
      have hmem := List.mem_filter.mp (hgroup ▸ List.mem_cons_self)
      exact beq_iff_eq.mp hmem.2
    refine ⟨⟨first, second⟩, mem_leadingPairs.mpr ⟨others, by rw [hhash]; exact hgroup, ?_⟩, ?_⟩
    · rw [isReportable_iff (List.cons_ne_nil _ _), ← hgroup]
      exact hchanged
    · rw [duplicate, hfirst, hsecond, hhash]
  · rintro ⟨pair, hpair, rfl⟩
    obtain ⟨rest, hgroup, hreportable⟩ := mem_leadingPairs.mp hpair
    rw [isReportable_iff (List.cons_ne_nil _ _), ← hgroup] at hreportable
    refine ⟨⟨rest.map (site (eligible scope.files)), ?_⟩, ?_⟩
    · rw [hsites, duplicate, hgroup, List.map_cons, List.map_cons]
    · rw [hsites]
      exact hreportable

/-! ## 8. What is found -/

theorem isReport_firstsBy {scope : Scope} (hwindow : 1 ≤ scope.config.cloneWindow)
    (hpaths : DistinctPaths scope.files) :
    IsReport scope
      ((firstsBy Pair.files [] (pairs scope)).map (duplicate (eligible scope.files))) := by
  have horder := inOrder_eligible hpaths
  have hpairs : (pairs scope).Pairwise fun p q =>
      (duplicate (eligible scope.files) p).first.Before
        (duplicate (eligible scope.files) q).first :=
    pairwise_leadingPairs _ (pairwise_occurrences scope.config horder)
  have hleading {d : Duplicate} := isLeading_iff (d := d) hwindow hpaths
  have hfiles {p q : Pair} (hp : p ∈ pairs scope) (hq : q ∈ pairs scope) :=
    files_eq_iff horder hp hq
  have hsublist := firstsBy_sublist Pair.files [] (pairs scope)
  have hmem {p : Pair} : p ∈ firstsBy Pair.files [] (pairs scope) ↔ p ∈ pairs scope ∧
      ∀ q ∈ pairs scope, q.files = p.files → ¬ (duplicate (eligible scope.files) q).first.Before
        (duplicate (eligible scope.files) p).first :=
    mem_firstsBy_nil_of_pairwise hpairs fun _ _ => Site.Before.asymm
  constructor
  case ordered => exact List.pairwise_map.mpr (hpairs.sublist hsublist)
  case distinct =>
    refine List.pairwise_map.mpr ((pairwise_firstsBy Pair.files [] (pairs scope)).imp_of_mem ?_)
    intro p q hp hq hne hsame
    exact hne ((hfiles (hsublist.subset hp) (hsublist.subset hq)).mpr hsame)
  case complete =>
    intro d hd
    obtain ⟨p, hp, rfl⟩ := hleading.mp hd
    obtain ⟨q, hq, hkey⟩ := exists_mem_firstsBy hp (List.not_mem_nil (a := p.files))
    exact ⟨_, List.mem_map_of_mem hq, (hfiles (hsublist.subset hq) hp).mp hkey⟩
  case mem_iff =>
    intro d
    rw [List.mem_map]
    constructor
    · rintro ⟨p, hp, rfl⟩
      obtain ⟨hp, hfirst⟩ := hmem.mp hp
      refine ⟨hleading.mpr ⟨p, hp, rfl⟩, fun e he hsame => ?_⟩
      obtain ⟨q, hq, rfl⟩ := hleading.mp he
      exact hfirst q hq ((hfiles hq hp).mpr hsame)
    · rintro ⟨hd, hfirst⟩
      obtain ⟨p, hp, rfl⟩ := hleading.mp hd
      refine ⟨p, hmem.mpr ⟨hp, fun q hq hkey => ?_⟩, rfl⟩
      exact hfirst _ (hleading.mpr ⟨q, hq, rfl⟩) ((hfiles hq hp).mp hkey)

-- The comparison starts from the same list, however the files are given.
theorem eligible_congr {files₁ files₂ : List SourceFile}
    (hpaths : DistinctPaths files₁) (h : files₂.Perm files₁) :
    eligible files₂ = eligible files₁ := by
  have hperm : (eligible files₂).Perm (eligible files₁) :=
    (eligible_perm files₂).trans ((h.filter _).trans (eligible_perm files₁).symm)
  refine List.Perm.eq_of_pairwise (fun a b _ _ hab hba => ?_)
    (inOrder_eligible (hpaths.perm h.symm)) (inOrder_eligible hpaths) hperm
  have hswap : a.path.order b.path = (b.path.order a.path).swap :=
    Std.OrientedOrd.eq_swap (a := a.path) (b := b.path)
  rw [hab, hba] at hswap
  exact absurd hswap (by decide)

/-- What is found is a report of the project, and it does not depend on the order in which the
files are given. -/
theorem detect_isReport {scope : Scope} (hwindow : 1 ≤ scope.config.cloneWindow)
    (hpaths : DistinctPaths scope.files) :
    (∃ duplicates, IsReport scope duplicates ∧
      (detect scope).findings = duplicates.map (Duplicate.finding scope.config.cloneWindow)) ∧
    ∀ files : List SourceFile, files.Perm scope.files →
      detect { scope with files } = detect scope := by
  refine ⟨⟨_, isReport_firstsBy hwindow hpaths, findings_detect scope⟩, fun files hfiles => ?_⟩
  unfold detect
  rw [show eligible ({ scope with files } : Scope).files = eligible scope.files from
    eligible_congr hpaths hfiles]
  rfl

/-- Two files with one line in common, the later one first. -/
def twins : Scope where
  root := ⟨"/p"⟩
  files := [⟨⟨"b.ts"⟩, "f(1);\ng();\n"⟩, ⟨⟨"a.ts"⟩, "x;\nf(2);\n"⟩]
  changed := some ⟨[⟨"b.ts"⟩]⟩
  config := { cloneWindow := 1, minCloneChars := 4 }

theorem detect_twins : 1 ≤ twins.config.cloneWindow ∧ DistinctPaths twins.files ∧
    (∃ duplicates, IsReport twins duplicates ∧ (detect twins).findings =
      duplicates.map (Duplicate.finding 1)) ∧
    detect { twins with files := twins.files.reverse } = detect twins := by
  have hpaths : DistinctPaths twins.files := by
    unfold DistinctPaths
    decide +kernel
  obtain ⟨hreport, horder⟩ := @detect_isReport twins (by decide) hpaths
  exact ⟨by decide, hpaths, hreport, horder _ (List.reverse_perm _)⟩

end Scrutiny.Clones
