import Mathlib.Data.List.Forall2
import Scrutiny.Proofs.Analysis.Collection
import Scrutiny.Proofs.Detect.Scope
import Scrutiny.Proofs.Tree.Filling

/-!
The clock in an analysis.  A run reads it for the records that it makes and for the time of the last
analysis, and for nothing else: at another time the run has the same result, and the worklists that
are left differ in those times only.
-/

namespace Scrutiny

/-! ## 1. Saving another text -/

namespace Tree

variable {tree after : Tree} {path : Path} {text : String}

-- Where a file cannot be written, no text can.
theorem writeText_eq_error {error : OsError} (h : tree.writeText path text = .error error)
    (other : String) : tree.writeText path other = .error error := by
  unfold writeText writeFile at h ⊢
  split at h
  · exact h
  · exact nomatch h
  · exact nomatch h
  · exact h

/-- Saving fails with any text as it does with one, and leaves the same tree. -/
theorem exec_saveText_eq_error {error : WriteError}
    (h : (saveText path text).exec tree = (.error error, after)) (other : String) :
    (saveText path other).exec tree = (.error error, after) := by
  unfold saveText at h ⊢
  cases hparent : path.parent? with
  | none =>
    rw [hparent] at h
    cases hwrite : tree.writeText path text with
    | ok written => simp [TreeStep.exec_bind, hwrite] at h
    | error cause =>
      have hother := writeText_eq_error hwrite other
      simpa [TreeStep.exec_bind, hwrite, hother] using h
  | some parent =>
    rw [hparent] at h
    rcases hmade : tree.makeDirs parent with ⟨result, made⟩
    cases result with
    | error cause => simpa [TreeStep.exec_bind, hmade] using h
    | ok =>
      cases hwrite : made.writeText path text with
      | ok written => simp [TreeStep.exec_bind, hmade, hwrite] at h
      | error cause =>
        have hother := writeText_eq_error hwrite other
        simpa [TreeStep.exec_bind, hmade, hwrite, hother] using h

theorem exists_exec_saveText (h : (saveText path text).exec tree = (.ok (), after))
    (other : String) : ∃ final, (saveText path other).exec tree = (.ok (), final) := by
  rcases hother : (saveText path other).exec tree with ⟨result, final⟩
  cases result with
  | ok => exact ⟨final, rfl⟩
  | error error => exact nomatch h.symm.trans (exec_saveText_eq_error hother text)

end Tree

/-! ## 2. Worklists that differ in times -/

variable {now later : Instant}

/-- The same record, or one that was made at one time and at the other. -/
def Criticism.Retimed (now later : Instant) (a b : Criticism) : Prop :=
  b = a ∨ a.createdAt = now ∧ b = { a with createdAt := later }

theorem Criticism.Retimed.id_eq {a b : Criticism} (h : a.Retimed now later b) : b.id = a.id := by
  obtain rfl | ⟨-, rfl⟩ := h <;> rfl

theorem Criticism.map_id_of_retimed {olds news : List Criticism}
    (h : List.Forall₂ (Criticism.Retimed now later) olds news) :
    news.map Criticism.id = olds.map Criticism.id := by
  induction h with
  | nil => rfl
  | cons hfirst _ ih => rw [List.map_cons, List.map_cons, ih, hfirst.id_eq]

theorem Finding.retimed_record (finding : Finding) :
    (finding.record now).Retimed now later (finding.record later) :=
  .inr ⟨rfl, rfl⟩

-- The creation time is the old record's, and all else but the review state is the new one's.
theorem Criticism.Retimed.refresh {new new' old old' : Criticism}
    (hnew : new.Retimed now later new') (hold : old.Retimed now later old') :
    (Worklist.refresh new old).Retimed now later (Worklist.refresh new' old') := by
  have hsame : Worklist.refresh new' old' = Worklist.refresh new old' := by
    obtain rfl | ⟨-, rfl⟩ := hnew <;> rfl
  rw [hsame]
  obtain rfl | ⟨hcreated, rfl⟩ := hold
  · exact .inl rfl
  · exact .inr ⟨hcreated, rfl⟩

namespace Worklist

/-- The worklists differ in the times of new records, and in that of the last analysis. -/
structure Retimed (now later : Instant) (a b : Worklist) : Prop where
  criticisms : List.Forall₂ (Criticism.Retimed now later) a.criticisms b.criticisms
  lastAnalysis : b.lastAnalysis = a.lastAnalysis ∨
    a.lastAnalysis = some now ∧ b.lastAnalysis = some later

variable {a b : Worklist}

theorem Retimed.refl (worklist : Worklist) : worklist.Retimed now later worklist :=
  ⟨List.forall₂_same.mpr fun _ _ => .inl rfl, .inl rfl⟩

theorem Retimed.stamp (h : a.Retimed now later b) :
    (a.stamp now).Retimed now later (b.stamp later) :=
  ⟨h.criticisms, .inr ⟨rfl, rfl⟩⟩

theorem Retimed.contains_eq (h : a.Retimed now later b) (id : String) :
    b.contains id = a.contains id := by
  have hids : b.ids = a.ids := Criticism.map_id_of_retimed h.criticisms
  rw [Bool.eq_iff_iff, contains_eq_true, contains_eq_true, hids]

theorem forall₂_changeFirst {new new' : Criticism} (hnew : new.Retimed now later new')
    {olds olds' : List Criticism} (h : List.Forall₂ (Criticism.Retimed now later) olds olds') :
    List.Forall₂ (Criticism.Retimed now later)
      (changeFirst (fun old => old.id == new.id) (refresh new) olds)
      (changeFirst (fun old => old.id == new'.id) (refresh new') olds') := by
  induction h with
  | nil => exact .nil
  | @cons old old' _ _ hfirst hrest ih =>
    unfold changeFirst
    rw [hfirst.id_eq, hnew.id_eq]
    by_cases hid : (old.id == new.id) = true
    · rw [if_pos hid, if_pos hid]
      exact .cons (hnew.refresh hfirst) hrest
    · rw [if_neg hid, if_neg hid]
      rw [hnew.id_eq] at ih
      exact .cons hfirst ih

theorem Retimed.insert (h : a.Retimed now later b) {new new' : Criticism}
    (hnew : new.Retimed now later new') :
    (a.insert new).Retimed now later (b.insert new') := by
  unfold Worklist.insert
  rw [h.contains_eq, hnew.id_eq]
  by_cases hcontains : a.contains new.id = true
  · rw [if_pos hcontains, if_pos hcontains]
    have hchanged := forall₂_changeFirst hnew h.criticisms
    rw [hnew.id_eq] at hchanged
    exact ⟨hchanged, h.lastAnalysis⟩
  · rw [if_neg hcontains, if_neg hcontains]
    exact ⟨List.rel_append h.criticisms (.cons hnew .nil), h.lastAnalysis⟩

/-- The same findings recorded at either time. -/
theorem Retimed.insertAll (h : a.Retimed now later b) (findings : List Finding) :
    (a.insertAll (findings.map fun finding => finding.record now)).Retimed now later
      (b.insertAll (findings.map fun finding => finding.record later)) := by
  induction findings generalizing a b with
  | nil => exact h
  | cons finding findings ih => exact ih (h.insert finding.retimed_record)

theorem Retimed.countNew_eq (h : a.Retimed now later b) (findings : List Finding) :
    b.countNew (findings.map fun finding => finding.record later) =
      a.countNew (findings.map fun finding => finding.record now) := by
  induction findings generalizing a b with
  | nil => rfl
  | cons finding findings ih =>
    rw [List.map_cons, List.map_cons, countNew, countNew, ih (h.insert finding.retimed_record),
      h.contains_eq]
    rfl

end Worklist

/-! ## 3. Adding records and noting the time -/

namespace WorklistFile

variable {file : WorklistFile} {tree after : Tree}

/-- Adds the records of a run and notes its time. -/
def update (file : WorklistFile) (findings : List Finding) (now : Instant) :
    TreeStep WriteError Nat := do
  let count ← file.add (findings.map fun finding => finding.record now)
  file.stamp now
  pure count

theorem exec_update_of_ok {findings : List Finding} {count : Nat} {between : Tree}
    {result : Except WriteError Unit}
    (hadd : (file.add (findings.map fun finding => finding.record now)).exec tree =
      (.ok count, between))
    (hsave : (file.save ((file.load between).stamp now)).exec between = (result, after)) :
    (file.update findings now).exec tree = (result.map fun _ => count, after) := by
  rw [update, TreeStep.exec_bind_of_ok hadd, TreeStep.exec_bind, exec_stamp, hsave]
  cases result <;> rfl

theorem exec_update_of_error {findings : List Finding} {error : WriteError}
    (hadd : (file.add (findings.map fun finding => finding.record now)).exec tree =
      (.error error, after)) :
    (file.update findings now).exec tree = (.error error, after) := by
  rw [update, TreeStep.exec_bind, hadd]

/-- What is left of a worklist's update at either time: the same tree where it fails, and worklists
that differ in the times where it does not. -/
def Agrees (file : WorklistFile) (now later : Instant) {ε α : Type} (result : Except ε α)
    (after final : Tree) : Prop :=
  match result with
  | .ok _ => (file.load after).Retimed now later (file.load final)
  | .error _ => final = after

theorem exists_exec_save (hd : tree.HasDirectory) {worklist other : Worklist}
    (hretimed : worklist.Retimed now later other) (hdated : worklist.IsDated)
    (hother : other.IsDated) {result : Except WriteError Unit}
    (h : (file.save worklist).exec tree = (result, after)) :
    ∃ final, (file.save other).exec tree = (result, final) ∧
      file.Agrees now later result after final := by
  cases result with
  | error error => exact ⟨after, Tree.exec_saveText_eq_error h _, rfl⟩
  | ok =>
    obtain ⟨final, hfinal⟩ := Tree.exists_exec_saveText h (other.text ++ "\n")
    refine ⟨final, hfinal, ?_⟩
    show (file.load after).Retimed now later (file.load final)
    rwa [load_of_save hd hdated h, load_of_save hd hother hfinal]

theorem isDated_records (hnow : now.isValid = true) {worklist : Worklist}
    (hdated : worklist.IsDated) (findings : List Finding) :
    (worklist.insertAll (findings.map fun finding => finding.record now)).IsDated := by
  apply Worklist.isDated_insertAll hdated
  rw [List.forall_mem_map]
  exact fun _ _ => hnow

theorem Agrees.map {ε α β : Type} {result : Except ε α} {final : Tree}
    (h : file.Agrees now later result after final) (f : α → β) :
    file.Agrees now later (result.map f) after final := by
  cases result <;> exact h

-- Once the file is there, the time can be noted in it.
theorem exists_exec_stamp (hd : tree.HasDirectory) (hnow : now.isValid = true)
    {worklist : Worklist} (hdated : worklist.IsDated)
    (h : (file.save worklist).exec tree = (.ok (), after)) :
    ∃ final, (file.save ((file.load after).stamp now)).exec after = (.ok (), final) ∧
      file.load final = worklist.stamp now := by
  obtain ⟨target, hfilled, hnames⟩ := Tree.exists_filled_of_saveText hd h
  have hstamped : (worklist.stamp now).IsDated := Worklist.isDated_stamp hdated hnow
  obtain ⟨final, hfinal, -, -, hload⟩ := exec_save_of_fileNames?
    (hfilled.keepsWays.hasDirectory hd) hnames hstamped
  rw [load_of_save hd hdated h]
  exact ⟨final, hfinal, hload⟩

/-- An update at another time has the same result. -/
theorem exists_exec_update (hd : tree.HasDirectory) (hnow : now.isValid = true)
    (hlater : later.isValid = true) (findings : List Finding) {result : Except WriteError Nat}
    (h : (file.update findings now).exec tree = (result, after)) :
    ∃ final, (file.update findings later).exec tree = (result, final) ∧
      file.Agrees now later result after final := by
  have hdated := isDated_load file tree
  have hrefl : (file.load tree).Retimed now later (file.load tree) := .refl _
  by_cases hnone : findings = []
  · -- nothing is added, and the time is noted in the same tree
    subst hnone
    rcases hsave : (file.save ((file.load tree).stamp now)).exec tree with ⟨saved, stamped⟩
    obtain ⟨final, hfinal, hagrees⟩ := exists_exec_save hd hrefl.stamp
      (Worklist.isDated_stamp hdated hnow) (Worklist.isDated_stamp hdated hlater) hsave
    have hadd : ∀ time : Instant, (file.add (([] : List Finding).map fun finding =>
        finding.record time)).exec tree = (.ok 0, tree) := fun _ => exec_add_nil
    have hexec := exec_update_of_ok (hadd now) hsave
    rw [h, Prod.mk.injEq] at hexec
    obtain ⟨rfl, rfl⟩ := hexec
    exact ⟨final, exec_update_of_ok (hadd later) hfinal, hagrees.map _⟩
  have hrecords : ∀ time, (findings.map fun finding => finding.record time) ≠ [] :=
    fun time => by simpa using hnone
  rcases hsave : (file.save ((file.load tree).insertAll
    (findings.map fun finding => finding.record now))).exec tree with ⟨saved, between⟩
  obtain ⟨other, hother, hagrees⟩ := exists_exec_save hd (hrefl.insertAll findings)
    (isDated_records hnow hdated findings) (isDated_records hlater hdated findings) hsave
  have hadd := exec_add_of_ne_nil (hrecords now) hsave
  have hadd' := exec_add_of_ne_nil (hrecords later) hother
  cases saved with
  | error error =>
    have hexec := exec_update_of_error hadd
    rw [h, Prod.mk.injEq] at hexec
    obtain ⟨rfl, rfl⟩ := hexec
    exact ⟨other, exec_update_of_error hadd', hagrees⟩
  | ok =>
    rw [hrefl.countNew_eq] at hadd'
    obtain ⟨stamped, hstamp, hload⟩ := exists_exec_stamp hd hnow
      (isDated_records hnow hdated findings) hsave
    obtain ⟨final, hfinal, hload'⟩ := exists_exec_stamp hd hlater
      (isDated_records hlater hdated findings) hother
    have hexec := exec_update_of_ok hadd hstamp
    rw [h, Prod.mk.injEq] at hexec
    obtain ⟨rfl, rfl⟩ := hexec
    refine ⟨final, exec_update_of_ok hadd' hfinal, ?_⟩
    show (file.load after).Retimed now later (file.load final)
    rw [hload, hload']
    exact (hrefl.insertAll findings).stamp

end WorklistFile

/-! ## 4. Analyses -/

namespace Analyzer

variable {analyzer : Analyzer} {tree after : Tree} {request : Option (List Path)}

/-- Analyses the whole project, or the given files of it. -/
def analyze (analyzer : Analyzer) (now : Instant) :
    Option (List Path) → TreeStep AnalysisError AnalysisReport
  | none => analyzer.analyzeProject now
  | some paths => analyzer.analyzeChanged now paths

/-- The findings that an analysis puts on the worklist. -/
def findings (analyzer : Analyzer) (tree : Tree) (request : Option (List Path)) : List Finding :=
  Commit.kept (analyzer.state.preferences.entries tree)
    (Commit.proposed (analyzer.outcomes tree (request.map analyzer.relative)))

theorem isEmpty_relative {paths : List Path} (h : paths ≠ []) :
    (analyzer.relative paths).isEmpty = false := by
  obtain ⟨path, hpath⟩ := List.exists_mem_of_ne_nil paths h
  have hmember : (analyzer.relative paths).contains
      ((analyzer.root.stripBase? path).getD path) = true := by
    unfold relative
    rw [PathSet.contains_ofList, List.any_map, List.any_eq_true]
    exact ⟨path, hpath, Path.same_self _⟩
  rw [← Bool.not_eq_true]
  intro hempty
  unfold PathSet.contains at hmember
  rw [List.isEmpty_iff.mp hempty] at hmember
  exact nomatch hmember

theorem analyze_eq (h : request ≠ some []) (now : Instant) :
    analyzer.analyze now request = do
      let report ← analyzer.run now (request.map analyzer.relative)
      (analyzer.state.worklist.stamp now).adapt .write
      return report := by
  cases request with
  | none => rfl
  | some paths =>
    have hsome : (analyzer.relative paths).isEmpty = false :=
      isEmpty_relative fun hnil => h (congrArg some hnil)
    show (if _ then _ else _) = _
    rw [if_neg (by simp [hsome])]
    rfl

/-- Without files nothing is done. -/
theorem exec_analyze_nil (analyzer : Analyzer) (now : Instant) (tree : Tree) :
    (analyzer.analyze now (some [])).exec tree = (.ok {}, tree) := rfl

theorem exec_analyze_of_missing (hroot : tree.isDir analyzer.root = false)
    (h : request ≠ some []) (now : Instant) :
    (analyzer.analyze now request).exec tree =
      (.error (.rootNotFound analyzer.root), tree) := by
  have hpaths : projectPaths tree analyzer.config.skipDirs false analyzer.root =
      .error (.rootNotFound analyzer.root) := if_neg (by simp [hroot])
  rw [analyze_eq h, TreeStep.exec_bind, run, TreeStep.exec_get_bind, hpaths]
  rfl

/-- An analysis is an update of the worklist, and a report of it. -/
theorem exec_analyze (hroot : tree.isDir analyzer.root = true) (hrequest : request ≠ some [])
    {result : Except WriteError Nat}
    (h : (analyzer.state.worklist.update (analyzer.findings tree request) now).exec tree =
      (result, after)) :
    (analyzer.analyze now request).exec tree =
      ((result.map (Commit.report (analyzer.state.preferences.entries tree)
        (analyzer.sources tree).2
        (analyzer.outcomes tree (request.map analyzer.relative)))).mapError .write, after) := by
  rw [analyze_eq hrequest, TreeStep.exec_bind, exec_run hroot]
  rw [WorklistFile.update, TreeStep.exec_bind] at h
  rcases hadd : (analyzer.state.worklist.add ((analyzer.findings tree request).map
    fun finding => finding.record now)).exec tree with ⟨added, between⟩
  rw [hadd] at h
  rw [exec_commit_of_add hadd]
  cases added with
  | error error =>
    obtain ⟨rfl, rfl⟩ := Prod.mk.inj h
    rfl
  | ok count =>
    change (analyzer.state.worklist.stamp now >>= fun _ => pure count).exec between = _ at h
    rw [TreeStep.exec_bind] at h
    rcases hstamp : (analyzer.state.worklist.stamp now).exec between with ⟨stamped, final⟩
    rw [hstamp] at h
    dsimp only [Except.map, Except.mapError]
    rw [TreeStep.exec_bind, TreeStep.exec_adapt, hstamp]
    cases stamped with
    | error error =>
      obtain ⟨rfl, rfl⟩ := Prod.mk.inj h
      rfl
    | ok =>
      obtain ⟨rfl, rfl⟩ := Prod.mk.inj h
      rfl

end Analyzer

end Scrutiny
