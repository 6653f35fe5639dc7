import Scrutiny.Proofs.Analysis.Commit
import Scrutiny.Proofs.State.Run

/-!
Rejections are permanent.  A rejected criticism leaves an entry in the preference log, later
operations keep the entry, and every commit suppresses what the entry rejects.
-/

namespace Scrutiny

/-! ## 1. Commits -/

/-- A commit leaves the records of a proposed finding that is rejected as they are. -/
theorem withId_commit {files : StateFiles} {now : Instant} {stats : AnalysisStats}
    {outcomes : List Outcome} {report : AnalysisReport} {tree after : Tree}
    (hd : tree.HasDirectory) (hnow : now.isValid = true)
    (h : (commit files now stats outcomes).exec tree = (.ok report, after)) {finding : Finding}
    (hproposed : finding ∈ Commit.proposed outcomes)
    (hrejected : Commit.isRejected (files.preferences.entries tree) finding = true) :
    (files.worklist.load after).withId finding.id =
      (files.worklist.load tree).withId finding.id := by
  obtain ⟨stored, hadd, -⟩ := exec_commit h
  rw [WorklistFile.load_of_add hd (by simpa [Finding.record] using fun _ _ => hnow) hadd]
  apply Worklist.withId_insertAll
  rw [List.forall_mem_map]
  intro other hother hid
  -- a finding that is kept is not rejected, so it is another one, with another identity
  obtain ⟨hmem, hkept⟩ := List.mem_filter.mp hother
  have hsame : other = finding :=
    List.inj_on_of_nodup_map (Commit.nodup_proposed outcomes) hmem hproposed hid
  subst hsame
  rw [Commit.isRejected] at hrejected
  rw [hrejected] at hkept
  exact absurd hkept (by decide)

/-! ## 2. Rejections -/

/-- The finding proposes again what the criticism did: its category is the same, and so is its
subject once both are sanitized. -/
def Criticism.Recurs (criticism : Criticism) (finding : Finding) : Prop :=
  finding.category = criticism.category ∧
    PreferenceEntry.sanitize finding.subject = PreferenceEntry.sanitize criticism.subject

/-- A rejection leaves an entry in the log. -/
theorem mem_entries_of_reject {files : StateFiles} {today : Date} {id : String}
    {reason : Option String} {criticism : Criticism} {before rejected : Tree}
    (hd : before.HasDirectory)
    (h : (review files today .reject id reason).exec before = (.ok (.updated criticism), rejected))
    (hvalid : today.isValid = true) (hyear : 0 ≤ today.year ∧ today.year ≤ 9999)
    (hplace : Text.isBlankText criticism.displayLocation.toList = false) :
    rejected.HasDirectory ∧ ∃ entry ∈ files.preferences.entries rejected,
      entry.category = criticism.category ∧ entry.decision = .rejected ∧
        entry.subject = PreferenceEntry.sanitize criticism.subject := by
  obtain ⟨moved, between, hset, hrest⟩ := exec_review h
  have hbetween := (exec_setStatus hd hset).1.directory
  rcases hrest with ⟨found, decision, -, hdecision, houtcome, hadd⟩ | ⟨-, hnone | hmissed⟩
  · rw [ReviewOutcome.updated.injEq] at houtcome
    have hrejected : decision = .rejected := (Option.some.inj hdecision).symm
    subst houtcome hrejected
    obtain ⟨target, hsaved⟩ := PreferenceFile.saved_of_add hbetween hadd
    obtain ⟨front, back, -, hafter⟩ := PreferenceFile.entries_of_add hbetween hadd
    have hbullet := @PreferenceLog.ofBullet?_bullet
      (criticism.entry today .rejected (reviewReasoning .reject reason)) hvalid hyear hplace
    obtain ⟨entry, hentry, -, hcategory, hdecided, hsubject⟩ := hbullet
    refine ⟨hsaved.holds.directory, entry, ?_, hcategory, hdecided, hsubject⟩
    rw [hafter, hentry]
    simp
  · exact absurd hnone (by decide)
  · exact absurd hmissed (by simp [ReviewOutcome.isUpdated])

-- What such an entry rejects.
theorem isRejected_of_recurs {criticism : Criticism} {finding : Finding}
    (hrecurs : criticism.Recurs finding) {entries : List PreferenceEntry} {entry : PreferenceEntry}
    (hmem : entry ∈ entries) (hcategory : entry.category = criticism.category)
    (hdecision : entry.decision = .rejected)
    (hsubject : entry.subject = PreferenceEntry.sanitize criticism.subject) :
    Commit.isRejected entries finding = true := by
  rw [Commit.isRejected, List.any_eq_true]
  refine ⟨entry, hmem, ?_⟩
  simp [PreferenceEntry.rejects, hdecision, hcategory, hsubject, hrecurs.1, hrecurs.2]

/-- A rejection is permanent.  Once a criticism that can be placed was rejected, every commit in
every later run counts the findings that the log rejects as suppressed; the findings that propose
the criticism again are among them, and their records stay as they are. -/
theorem reject_permanent {files : StateFiles} {today : Date} {id : String}
    {reason : Option String} {criticism : Criticism} {before rejected tree after : Tree}
    (hd : before.HasDirectory)
    (hreject : (review files today .reject id reason).exec before =
      (.ok (.updated criticism), rejected))
    (hvalid : today.isValid = true) (hyear : 0 ≤ today.year ∧ today.year ≤ 9999)
    (hplace : Text.isBlankText criticism.displayLocation.toList = false)
    (hrun : Run files rejected tree) {now : Instant} (hnow : now.isValid = true)
    {stats : AnalysisStats} {outcomes : List Outcome} {report : AnalysisReport}
    (hcommit : (commit files now stats outcomes).exec tree = (.ok report, after)) :
    report.suppressed = ((Commit.proposed outcomes).filter
        (Commit.isRejected (files.preferences.entries tree))).length ∧
      ∀ finding ∈ Commit.proposed outcomes, criticism.Recurs finding →
        Commit.isRejected (files.preferences.entries tree) finding = true ∧
        (files.worklist.load after).withId finding.id =
          (files.worklist.load tree).withId finding.id := by
  obtain ⟨hdirectory, entry, hentry, hcategory, hdecision, hsubject⟩ :=
    mem_entries_of_reject hd hreject hvalid hyear hplace
  obtain ⟨htree, hprogress⟩ := hrun.progress hdirectory
  have hkept := hprogress.log.subset hentry
  have hsuppressed : report.suppressed = ((Commit.proposed outcomes).filter
      (Commit.isRejected (files.preferences.entries tree))).length := by
    obtain ⟨stored, -, rfl⟩ := exec_commit hcommit
    exact Commit.length_kept _ _
  refine ⟨hsuppressed, fun finding hproposed hrecurs => ?_⟩
  have hrejected := isRejected_of_recurs hrecurs hkept hcategory hdecision hsubject
  exact ⟨hrejected, withId_commit htree hnow hcommit hproposed hrejected⟩

/-! ## 3. One rejection -/

namespace Sample

def day : Date := ⟨2026, 10, 17⟩

/-- The finding on record as rejected. -/
def rejection : Criticism :=
  { finding.record epoch with status := .rejected }

/-- The tree that holds a worklist and the log with the rejection. -/
def withLog (worklist : Worklist) : Tree :=
  .flat [("c.json", .file (.text (worklist.text ++ "\n"))),
    ("p.md", .file (.text (PreferenceLog.insert "" (rejection.entry day .rejected none))))]

theorem holds_log (worklist : Worklist) : (withLog worklist).Holds files.preferences.path ["p.md"]
    (PreferenceLog.insert "" (rejection.entry day .rejected none)) :=
  Tree.holds_flat isPlain_preferences rfl

theorem holds_worklist (worklist : Worklist) :
    (withLog worklist).Holds files.worklist.path ["c.json"] (worklist.text ++ "\n") :=
  Tree.holds_flat isPlain_worklist rfl

theorem apart_flat (store log : String) : files.Apart
    (.flat [("c.json", .file (.text store)), ("p.md", .file (.text log))]) := by
  intro names text names' text' hstore hlog
  rw [((Tree.holds_flat isPlain_worklist rfl).unique hstore).1,
    ((Tree.holds_flat isPlain_preferences rfl).unique hlog).1]
  decide

theorem apart_withLog (worklist : Worklist) : files.Apart (withLog worklist) :=
  apart_flat _ _

theorem exec_reject : (review files day .reject finding.id none).exec (storeOnly proposed) =
    (.ok (.updated rejection), withLog (reviewed .rejected)) := by
  have hget : (reviewed .rejected).get? finding.id = some rejection := by
    simp [Worklist.get?, reviewed, rejection, Finding.record]
  have hlog : files.preferences.load (storeOnly (reviewed .rejected)) = "" := by
    rw [PreferenceFile.load, storeOnly, files,
      Tree.readText?_flat_free isPlain_preferences rfl]
    rfl
  have hadd : (files.preferences.add (rejection.entry day .rejected none)).exec
      (storeOnly (reviewed .rejected)) = (.ok (), withLog (reviewed .rejected)) := by
    rw [PreferenceFile.add, TreeStep.exec_get_bind, hlog]
    refine Tree.exec_saveText_flat isPlain_preferences _ fun node hnode => ?_
    have hnone : List.lookup "p.md" [("c.json", Node.file
        (.text ((reviewed .rejected).text ++ "\n")))] = none := rfl
    exact absurd (hnode.symm.trans hnone) (by simp)
  rw [review]
  have hset : (files.worklist.setStatus finding.id Verb.reject.status none).exec
      (storeOnly proposed) = (.ok true, storeOnly (reviewed .rejected)) := exec_setStatus rfl
  refine (TreeStep.exec_bind_of_ok hset).trans ?_
  rw [if_pos rfl, TreeStep.exec_get_bind, load_storeOnly (isDated_reviewed .rejected), hget]
  exact TreeStep.exec_bind_of_ok hadd

theorem leads_stamp : (Operation.stamp epoch).Leads files (withLog (reviewed .rejected))
    (withLog ((reviewed .rejected).stamp epoch)) := by
  refine ⟨.ok (), ?_, by simp⟩
  rw [Operation.run, TreeStep.exec_adapt_eq_ok, WorklistFile.exec_stamp,
    WorklistFile.load_of_holds (isDated_reviewed .rejected) (holds_worklist _)]
  exact exec_save _ (by simp) _

/-- What a detector gives that makes the finding once more. -/
def outcomes : List Outcome :=
  [⟨.unusedImports, .ok (.of [finding] 1)⟩]

theorem proposed_outcomes : Commit.proposed outcomes = [finding] := by
  simp [Commit.proposed, outcomes, Outcome.findings, Commit.distinct]

/-- Some commit succeeds after the rejection, and it suppresses the finding. -/
theorem reject_permanent_stamped : ∃ report after,
    (commit files epoch {} outcomes).exec (withLog ((reviewed .rejected).stamp epoch)) =
      (.ok report, after) ∧ report.suppressed = 1 ∧
    (files.worklist.load after).withId finding.id =
      (files.worklist.load (withLog ((reviewed .rejected).stamp epoch))).withId finding.id := by
  have hplace : Text.isBlankText rejection.displayLocation.toList = false := by decide
  have hdirectory : (storeOnly proposed).HasDirectory := Tree.hasDirectory_flat _
  have hrecurs : rejection.Recurs finding := ⟨rfl, rfl⟩
  have hrun : Run files (withLog (reviewed .rejected))
      (withLog ((reviewed .rejected).stamp epoch)) :=
    .operation (.stamp epoch) .refl isValid_epoch leads_stamp (apart_withLog _)
  have hrejected : Commit.isRejected (files.preferences.entries
      (withLog ((reviewed .rejected).stamp epoch))) finding = true := by
    obtain ⟨-, entry, hentry, hcategory, hdecision, hsubject⟩ :=
      mem_entries_of_reject hdirectory exec_reject (by decide) (by decide) hplace
    rw [PreferenceFile.entries_of_holds (holds_log _)] at hentry ⊢
    exact isRejected_of_recurs hrecurs hentry hcategory hdecision hsubject
  obtain ⟨report, hcommit⟩ : ∃ report,
      (commit files epoch {} outcomes).exec (withLog ((reviewed .rejected).stamp epoch)) =
        (.ok report, withLog ((reviewed .rejected).stamp epoch)) := by
    have hkept : Commit.kept (files.preferences.entries
        (withLog ((reviewed .rejected).stamp epoch))) (Commit.proposed outcomes) = [] := by
      rw [proposed_outcomes, Commit.kept, List.filter_cons_of_neg, List.filter_nil]
      rw [Commit.isRejected] at hrejected
      simp [hrejected]
    rw [commit, TreeStep.exec_get_bind, hkept]
    exact ⟨_, rfl⟩
  obtain ⟨hsuppressed, hleft⟩ := reject_permanent hdirectory exec_reject (by decide) (by decide)
    hplace hrun isValid_epoch hcommit
  refine ⟨report, _, hcommit, ?_, (hleft finding ?_ hrecurs).2⟩
  · rw [hsuppressed, proposed_outcomes, List.filter_cons_of_pos hrejected]
    rfl
  · rw [proposed_outcomes]
    exact List.mem_cons_self

end Sample

end Scrutiny
