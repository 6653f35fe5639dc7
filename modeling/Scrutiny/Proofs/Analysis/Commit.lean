import Mathlib.Algebra.Order.BigOperators.Group.List
import Mathlib.Algebra.Order.Ring.Nat
import Scrutiny.Analysis.Commit
import Scrutiny.Proofs.Detect.Scope
import Scrutiny.Proofs.Firsts
import Scrutiny.Proofs.State.Run
import Scrutiny.Proofs.Worklist.Merging

/-!
A commit accounts for every finding.  What it reports and what it leaves on the worklist is given by
the findings of the detectors, the records that were there and the log, however the three overlap.
-/

namespace Scrutiny

/-! ## 1. Proposed and kept findings -/

namespace Commit

theorem distinct_eq_firstsBy (seen : List String) (findings : List Finding) :
    distinct seen findings = firstsBy Finding.id seen findings := by
  induction findings generalizing seen with
  | nil => rfl
  | cons finding findings ih => rw [distinct, firstsBy, ih, ih]

/-- Of the findings with one identity the first is proposed. -/
theorem proposed_eq_eraseDupsBy (outcomes : List Outcome) :
    proposed outcomes =
      (outcomes.flatMap Outcome.findings).eraseDupsBy fun a b => a.id == b.id := by
  rw [proposed, distinct_eq_firstsBy, firstsBy_nil_eq_eraseDupsBy]

theorem nodup_proposed (outcomes : List Outcome) :
    ((proposed outcomes).map Finding.id).Nodup := by
  rw [proposed, distinct_eq_firstsBy]
  exact List.pairwise_map.mpr (pairwise_firstsBy Finding.id [] _)

theorem proposed_sublist (outcomes : List Outcome) :
    (proposed outcomes).Sublist (outcomes.flatMap Outcome.findings) := by
  rw [proposed, distinct_eq_firstsBy]
  exact firstsBy_sublist Finding.id [] _

theorem nodup_kept (entries : List PreferenceEntry) (outcomes : List Outcome) :
    ((kept entries (proposed outcomes)).map Finding.id).Nodup :=
  (nodup_proposed outcomes).sublist (List.filter_sublist.map _)

/-- Some entry of the log rejects the finding. -/
def isRejected (entries : List PreferenceEntry) (finding : Finding) : Bool :=
  entries.any fun entry => entry.rejects finding.category finding.subject

theorem length_kept (entries : List PreferenceEntry) (findings : List Finding) :
    findings.length - (kept entries findings).length =
      (findings.filter (isRejected entries)).length := by
  have hsplit := List.length_eq_length_filter_add (l := findings) (isRejected entries)
  have hkept : kept entries findings = findings.filter fun f => !isRejected entries f := rfl
  rw [hkept]
  omega

end Commit

/-! ## 2. Counters -/

namespace AnalysisStats

/-- The counter of the findings of a kind. -/
def counter (stats : AnalysisStats) : DetectorKind → UInt64
  | .clones => stats.clones
  | .secrets => stats.secrets
  | .rules => stats.ruleViolations
  | .unusedImports => stats.unusedImports
  | .coverage => stats.testSuggestions

theorem counter_addFindings (stats : AnalysisStats) (kind other : DetectorKind) (count : Nat) :
    (stats.addFindings kind count).counter other =
      stats.counter other + UInt64.ofNat (if kind = other then count else 0) := by
  cases kind <;> cases other <;> simp [addFindings, counter]

theorem totalFindings_addFindings (stats : AnalysisStats) (kind : DetectorKind) (count : Nat) :
    (stats.addFindings kind count).totalFindings = stats.totalFindings + UInt64.ofNat count := by
  cases kind <;> simp only [addFindings, totalFindings] <;> ac_rfl

end AnalysisStats

namespace Outcome

/-- How many findings the detector says it made, none if it failed. -/
def findingsMade (outcome : Outcome) : Nat :=
  match outcome.result with
  | .ok detection => detection.findingsMade
  | .error _ => 0

theorem findingsMade_eq {outcome : Outcome} (h : ∀ detection, outcome.result = .ok detection →
    detection.findingsMade = detection.findings.length) :
    outcome.findingsMade = outcome.findings.length := by
  rw [findingsMade, findings]
  cases hresult : outcome.result with
  | ok detection => exact h detection hresult
  | error error => rfl

/-- How many findings the detectors of a kind say they made, before any are merged or suppressed. -/
def rawCount (outcomes : List Outcome) (kind : DetectorKind) : Nat :=
  ((outcomes.filter fun outcome => outcome.kind = kind).map findingsMade).sum

theorem rawCount_cons (outcome : Outcome) (outcomes : List Outcome) (kind : DetectorKind) :
    rawCount (outcome :: outcomes) kind =
      (if outcome.kind = kind then outcome.findingsMade else 0) + rawCount outcomes kind := by
  by_cases hkind : outcome.kind = kind <;> simp [rawCount, hkind]

-- A detector that failed says it made none, and to count none is to count nothing.
theorem counter_count (stats : AnalysisStats) (outcome : Outcome) (kind : DetectorKind) :
    (outcome.count stats).counter kind = stats.counter kind +
      UInt64.ofNat (if outcome.kind = kind then outcome.findingsMade else 0) := by
  rw [count, findingsMade]
  cases outcome.result with
  | ok detection => exact stats.counter_addFindings _ _ _
  | error error => simp

theorem totalFindings_count (stats : AnalysisStats) (outcome : Outcome) :
    (outcome.count stats).totalFindings =
      stats.totalFindings + UInt64.ofNat outcome.findingsMade := by
  rw [count, findingsMade]
  cases outcome.result with
  | ok detection => exact stats.totalFindings_addFindings _ _
  | error error => simp

theorem counter_foldl_count (stats : AnalysisStats) (outcomes : List Outcome)
    (kind : DetectorKind) : (outcomes.foldl count stats).counter kind =
      stats.counter kind + UInt64.ofNat (rawCount outcomes kind) := by
  induction outcomes generalizing stats with
  | nil => simp [rawCount]
  | cons outcome outcomes ih =>
    rw [List.foldl_cons, ih, counter_count, rawCount_cons, UInt64.ofNat_add, UInt64.add_assoc]

theorem totalFindings_foldl_count (stats : AnalysisStats) (outcomes : List Outcome) :
    (outcomes.foldl count stats).totalFindings =
      stats.totalFindings + UInt64.ofNat (outcomes.map findingsMade).sum := by
  induction outcomes generalizing stats with
  | nil => simp
  | cons outcome outcomes ih =>
    rw [List.foldl_cons, ih, totalFindings_count, List.map_cons, List.sum_cons,
      UInt64.ofNat_add, UInt64.add_assoc]

/-- The detector says it made at least the findings that it gives. -/
def IsCounted (outcome : Outcome) : Prop :=
  outcome.findings.length ≤ outcome.findingsMade

theorem length_findings_le {outcomes : List Outcome} (h : ∀ outcome ∈ outcomes, outcome.IsCounted) :
    (outcomes.flatMap findings).length ≤ (outcomes.map findingsMade).sum := by
  rw [List.length_flatMap]
  exact List.sum_le_sum h

end Outcome

/-! ## 3. Commits -/

/-- The report of a commit that put some new records on the worklist. -/
def Commit.report (entries : List PreferenceEntry) (stats : AnalysisStats)
    (outcomes : List Outcome) (stored : Nat) : AnalysisReport where
  proposed := (proposed outcomes).length
  suppressed := (proposed outcomes).length - (kept entries (proposed outcomes)).length
  stored := stored
  degraded := outcomes.filterMap Outcome.degraded?
  stats := outcomes.foldl Outcome.count stats

/-- A commit that succeeds adds what is kept to the worklist. -/
theorem exec_commit {files : StateFiles} {now : Instant} {stats : AnalysisStats}
    {outcomes : List Outcome} {report : AnalysisReport} {tree after : Tree}
    (h : (commit files now stats outcomes).exec tree = (.ok report, after)) :
    ∃ stored, (files.worklist.add ((Commit.kept (files.preferences.entries tree)
        (Commit.proposed outcomes)).map fun finding => finding.record now)).exec tree =
          (.ok stored, after) ∧
      report = Commit.report (files.preferences.entries tree) stats outcomes stored := by
  rw [commit, TreeStep.exec_get_bind] at h
  obtain ⟨stored, between, hadd, hpure⟩ := TreeStep.exec_bind_eq_ok.mp h
  obtain ⟨rfl, rfl⟩ := TreeStep.exec_pure_eq_ok.mp hpure
  exact ⟨stored, TreeStep.exec_adapt_eq_ok.mp hadd, rfl⟩

/-- A commit fails only where adding to the worklist does. -/
theorem exec_commit_of_add {files : StateFiles} {now : Instant} {stats : AnalysisStats}
    {outcomes : List Outcome} {tree after : Tree} {result : Except WriteError Nat}
    (h : (files.worklist.add ((Commit.kept (files.preferences.entries tree)
      (Commit.proposed outcomes)).map fun finding => finding.record now)).exec tree =
        (result, after)) :
    (commit files now stats outcomes).exec tree =
      ((result.map (Commit.report (files.preferences.entries tree) stats outcomes)).mapError .write,
        after) := by
  rw [commit, TreeStep.exec_get_bind, TreeStep.exec_bind, TreeStep.exec_adapt, h]
  cases result <;> rfl

namespace Commit

theorem ids_records (findings : List Finding) (now : Instant) :
    (findings.map fun finding => finding.record now).map Criticism.id =
      findings.map Finding.id := by
  rw [List.map_map]
  rfl

theorem countNew_records {findings : List Finding} (hnodup : (findings.map Finding.id).Nodup)
    (worklist : Worklist) (now : Instant) :
    worklist.countNew (findings.map fun finding => finding.record now) =
      (findings.filter fun finding => finding.id ∉ worklist.ids).length := by
  rw [Worklist.countNew_eq_length (by rwa [ids_records]), List.filter_map, List.length_map]
  refine congrArg List.length (List.filter_congr fun finding _ => ?_)
  rw [Bool.eq_iff_iff]
  simp [← Worklist.contains_eq_true, Finding.record]

-- There are no more proposed findings than are given, and so no more than are counted, as long as
-- the counters hold them.
theorem length_proposed_le_totalFindings {outcomes : List Outcome}
    (hcounted : ∀ outcome ∈ outcomes, outcome.IsCounted)
    (hroom : (outcomes.map Outcome.findingsMade).sum < 2 ^ 64) {stats : AnalysisStats}
    (hstats : stats.totalFindings = 0) :
    (proposed outcomes).length ≤ (outcomes.foldl Outcome.count stats).totalFindings.toNat := by
  rw [Outcome.totalFindings_foldl_count, hstats, UInt64.zero_add, UInt64.toNat_ofNat_of_lt' hroom]
  exact (proposed_sublist outcomes).length_le.trans (Outcome.length_findings_le hcounted)

end Commit

/-- A commit accounts for every finding.  Of the findings of one identity the first counts, and of
these all that the log does not reject are kept.  They are merged into the worklist, and nothing is
written if there are none.  The counters add up, as words, what the detectors say they made: if no
detector says too little and the words hold the sum, no fewer findings than are proposed. -/
theorem commit_accounts {files : StateFiles} {now : Instant} {tree : Tree}
    (hd : tree.HasDirectory) (hnow : now.isValid = true)
    (hnodup : (files.worklist.load tree).ids.Nodup) (filesRead readErrors : UInt64)
    (outcomes : List Outcome) :
    let raw := outcomes.flatMap Outcome.findings
    let proposed := raw.eraseDupsBy fun a b => a.id == b.id
    let kept := proposed.filter fun finding =>
      !Commit.isRejected (files.preferences.entries tree) finding
    let worklist := files.worklist.load tree
    let merged := worklist.merged (kept.map fun finding => finding.record now)
    let step := commit files now { filesRead, readErrors } outcomes
    ∃ report : AnalysisReport,
      report.proposed = proposed.length ∧
      report.suppressed = proposed.length - kept.length ∧
      report.stored = (kept.filter fun finding => finding.id ∉ worklist.ids).length ∧
      (∀ kind, report.stats.counter kind = UInt64.ofNat (Outcome.rawCount outcomes kind)) ∧
      ((∀ outcome ∈ outcomes, outcome.IsCounted) →
        (outcomes.map Outcome.findingsMade).sum < 2 ^ 64 →
          report.proposed ≤ report.stats.totalFindings.toNat) ∧
      (kept = [] → step.exec tree = (.ok report, tree)) ∧
      (kept ≠ [] → ∀ result after, (files.worklist.save merged).exec tree = (result, after) →
        step.exec tree = ((result.map fun _ => report).mapError .write, after) ∧
          (result = .ok () → files.worklist.load after = merged)) := by
  intro raw proposed kept worklist merged step
  let entries := files.preferences.entries tree
  let records := kept.map fun finding => finding.record now
  have hproposed : Commit.proposed outcomes = proposed := Commit.proposed_eq_eraseDupsBy outcomes
  have hkept : Commit.kept entries (Commit.proposed outcomes) = kept := by
    rw [hproposed]
    rfl
  have hids : (kept.map Finding.id).Nodup := hkept ▸ Commit.nodup_kept entries outcomes
  have hmerged : worklist.insertAll records = merged :=
    Worklist.insertAll_eq_merged hnodup (by rwa [Commit.ids_records])
  -- Whatever comes of adding the records, the rest of the report is known before.
  have hstep {result : Except WriteError Nat} {after : Tree}
      (hadd : (files.worklist.add records).exec tree = (result, after)) :
      step.exec tree =
        ((result.map (Commit.report entries { filesRead, readErrors } outcomes)).mapError .write,
          after) :=
    exec_commit_of_add (by rwa [hkept])
  refine ⟨Commit.report entries { filesRead, readErrors } outcomes (worklist.countNew records),
    ?_, ?_, Commit.countNew_records hids worklist now, fun kind => ?_,
    fun hcounted hroom => ?_, fun hnone => ?_, fun hsome result after hsave => ⟨?_, ?_⟩⟩
  · rw [Commit.report, hproposed]
  · rw [Commit.report, hkept, hproposed]
  · rw [Commit.report, Outcome.counter_foldl_count]
    cases kind <;> exact UInt64.zero_add _
  · exact Commit.length_proposed_le_totalFindings hcounted hroom rfl
  · have hrecords : records = [] := List.map_eq_nil_iff.mpr hnone
    rw [hrecords] at hstep ⊢
    exact hstep WorklistFile.exec_add_nil
  · have hrecords : records ≠ [] := fun hnil => hsome (List.map_eq_nil_iff.mp hnil)
    have hsaved : (files.worklist.save (worklist.insertAll records)).exec tree =
        (result, after) := by rwa [hmerged]
    rw [hstep (WorklistFile.exec_add_of_ne_nil hrecords hsaved)]
    cases result <;> rfl
  · rintro rfl
    refine WorklistFile.load_of_save hd ?_ hsave
    rw [← hmerged]
    refine Worklist.isDated_insertAll (WorklistFile.isDated_load _ tree) ?_
    rw [List.forall_mem_map]
    exact fun _ _ => hnow

namespace Sample

theorem entries_missing : files.preferences.entries (.flat []) = [] :=
  StateFiles.entries_eq_nil (Tree.readText?_flat_free isPlain_preferences rfl)

/-- The finding is made twice, and one detector fails. -/
def overlapping : List Outcome :=
  [⟨.unusedImports, .ok (.of [finding, finding] 1)⟩, ⟨.clones, .error (.rootNotFound ⟨"/p"⟩)⟩,
    ⟨.rules, .ok (.of [finding] 1)⟩]

theorem commit_accounts_overlapping :
    (Tree.flat []).HasDirectory ∧ epoch.isValid = true ∧
      (files.worklist.load (.flat [])).ids.Nodup ∧
    ∃ report, (commit files epoch {} overlapping).exec (.flat []) =
        (.ok report, storeOnly proposed) ∧
      report.proposed = 1 ∧ report.suppressed = 0 ∧ report.stored = 1 ∧
      report.stats.counter .unusedImports = 2 ∧ report.stats.counter .rules = 1 ∧
      1 ≤ report.stats.totalFindings.toNat ∧
      files.worklist.load (storeOnly proposed) = proposed := by
  have hd : (Tree.flat []).HasDirectory := Tree.hasDirectory_flat []
  have hnodup : (files.worklist.load (.flat [])).ids.Nodup := load_missing ▸ List.nodup_nil
  have hraw : overlapping.flatMap Outcome.findings = [finding, finding, finding] := rfl
  have hfirst : ([finding, finding, finding].eraseDupsBy fun a b => a.id == b.id) = [finding] := by
    simp [List.eraseDupsBy_cons]
  obtain ⟨report, hproposed, hsuppressed, hstored, hcounter, htotal, -, hexec⟩ :=
    commit_accounts hd isValid_epoch hnodup 0 0 overlapping
  obtain ⟨hexec, hafter⟩ : (commit files epoch {} overlapping).exec (.flat []) =
      (.ok report, storeOnly proposed) ∧ files.worklist.load (storeOnly proposed) = proposed := by
    have hmerged : Worklist.empty.merged [finding.record epoch] = proposed := rfl
    simp only [hraw, hfirst, load_missing, entries_missing] at hexec
    obtain ⟨hstep, hafter⟩ := hexec (List.cons_ne_nil _ _) (.ok ()) (storeOnly proposed)
      (exec_save [] (by simp) proposed)
    exact ⟨hstep, hafter rfl⟩
  simp only [hraw, hfirst, load_missing, entries_missing] at hproposed hsuppressed hstored htotal
  have hcounted : 1 ≤ report.stats.totalFindings.toNat := by
    have hcounted : ∀ outcome ∈ overlapping, outcome.IsCounted := by
      simp [overlapping, Outcome.IsCounted, Outcome.findings, Outcome.findingsMade]
    have hle := htotal hcounted (by decide)
    rwa [hproposed] at hle
  exact ⟨hd, isValid_epoch, hnodup, report, hexec, hproposed, hsuppressed, hstored,
    hcounter .unusedImports, hcounter .rules, hcounted, hafter⟩

/-- A finding that its detector does not count. -/
def uncounted : List Outcome :=
  [⟨.rules, .ok ⟨[finding], 1, 0⟩⟩]

/-- Detectors that say they made as many findings as a word holds, and one more. -/
def overflowing : List Outcome :=
  [⟨.clones, .ok ⟨[finding], 1, 2 ^ 64 - 1⟩⟩, ⟨.clones, .ok ⟨[], 1, 1⟩⟩]

theorem exec_commit_finding {outcomes : List Outcome} (h : Commit.proposed outcomes = [finding]) :
    (commit files epoch {} outcomes).exec (.flat []) =
      (.ok (Commit.report [] {} outcomes 1), storeOnly proposed) := by
  have hadd : (files.worklist.add ((Commit.kept (files.preferences.entries (.flat []))
      (Commit.proposed outcomes)).map fun finding => finding.record epoch)).exec (.flat []) =
        (.ok 1, storeOnly proposed) := by
    rw [h, entries_missing]
    exact exec_add_finding
  rw [← entries_missing]
  exact exec_commit_of_add hadd

/-- A commit may count less than it proposes: the counters show what the detectors say, and start
over after the largest word. -/
theorem totalFindings_lt_proposed :
    (∃ report after, (commit files epoch {} uncounted).exec (.flat []) = (.ok report, after) ∧
      report.proposed = 1 ∧ report.stats.totalFindings = 0) ∧
    ∃ report after, (commit files epoch {} overflowing).exec (.flat []) = (.ok report, after) ∧
      Outcome.rawCount overflowing .clones = 2 ^ 64 ∧ report.stats.counter .clones = 0 ∧
      report.proposed = 1 ∧ report.stats.totalFindings = 0 := by
  have hfirst {outcomes : List Outcome}
      (hraw : outcomes.flatMap Outcome.findings = [finding]) :
      Commit.proposed outcomes = [finding] := by
    rw [Commit.proposed, hraw]
    rfl
  exact ⟨⟨_, _, exec_commit_finding (hfirst rfl), congrArg List.length (hfirst rfl), by decide⟩,
    _, _, exec_commit_finding (hfirst rfl), by decide, by decide,
    congrArg List.length (hfirst rfl), by decide⟩

end Sample

end Scrutiny
