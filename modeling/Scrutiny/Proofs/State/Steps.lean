import Scrutiny.Proofs.State.Progress

/-!
The operations on a project's state, step by step.  A step advances the state unless a write
fails; what other failures leave behind is no different from what was there.
-/

namespace Scrutiny

/-- The failure of a write. -/
def AnalysisError.IsWrite (error : AnalysisError) : Prop :=
  ∃ failure, error = .write failure

/-! ## 1. Steps that advance -/

/-- The step advances the state unless it fails with a fatal error. -/
def TreeStep.Advances {ε α : Type} (files : StateFiles) (fatal : ε → Prop)
    (step : TreeStep ε α) : Prop :=
  ∀ tree result after, tree.HasDirectory → step.exec tree = (result, after) →
    (∀ error, result = .error error → ¬ fatal error) → files.Advance tree after

namespace TreeStep

variable {ε ε' α β : Type} {files : StateFiles} {fatal : ε → Prop}

theorem advances_pure (a : α) : (pure a : TreeStep ε α).Advances files fatal := by
  intro tree result after hd h _
  rw [exec_pure, Prod.mk.injEq] at h
  exact h.2 ▸ .refl files hd

theorem advances_get : (get : TreeStep ε Tree).Advances files fatal := by
  intro tree result after hd h _
  rw [exec_get, Prod.mk.injEq] at h
  exact h.2 ▸ .refl files hd

theorem advances_throw (error : ε) : (throw error : TreeStep ε α).Advances files fatal := by
  intro tree result after hd h _
  rw [exec_throw, Prod.mk.injEq] at h
  exact h.2 ▸ .refl files hd

theorem Advances.bind {step : TreeStep ε α} {next : α → TreeStep ε β}
    (h : step.Advances files fatal) (hnext : ∀ a, (next a).Advances files fatal) :
    (step >>= next).Advances files fatal := by
  intro tree result after hd hexec hfatal
  rw [exec_bind] at hexec
  rcases hstep : step.exec tree with ⟨first, between⟩
  rw [hstep] at hexec
  cases first with
  | error error =>
    rw [Prod.mk.injEq] at hexec
    obtain ⟨rfl, rfl⟩ := hexec
    refine h tree _ between hd hstep fun other hother => ?_
    rw [Except.error.injEq] at hother
    exact hother ▸ hfatal error rfl
  | ok a =>
    have hadvance := h tree _ between hd hstep (by simp)
    exact hadvance.trans (hnext a between result after hadvance.directory hexec hfatal)

theorem Advances.adapt {step : TreeStep ε α} (h : step.Advances files fatal) {fatal' : ε' → Prop}
    {f : ε → ε'} (hf : ∀ error, fatal error → fatal' (f error)) :
    TreeStep.Advances files fatal' (ExceptT.adapt f step) := by
  intro tree result after hd hexec hfatal
  rw [exec_adapt, Prod.mk.injEq] at hexec
  obtain ⟨rfl, rfl⟩ := hexec
  refine h tree (step.exec tree).1 (step.exec tree).2 hd rfl fun error herror hbad => ?_
  refine hfatal (f error) ?_ (hf error hbad)
  rw [herror]
  rfl

-- A step all of whose failures are fatal advances the state if it does so where it succeeds.
theorem advances_of_ok {step : TreeStep ε α} (h : ∀ tree a after, tree.HasDirectory →
    step.exec tree = (.ok a, after) → files.Advance tree after) :
    step.Advances files fun _ => True := by
  intro tree result after hd hexec hfatal
  cases result with
  | ok a => exact h tree a after hd hexec
  | error error => exact absurd trivial (hfatal error rfl)

end TreeStep

/-! ## 2. The worklist -/

section Worklist

variable {files : StateFiles} {tree after : Tree}

/-- Criticisms that may be added: they have identities of their own, and times that there are. -/
def Criticism.Addable (criticism : Criticism) : Prop :=
  criticism.IsIdentified ∧ criticism.createdAt.isValid = true

theorem advances_add {criticisms : List Criticism} (h : ∀ c ∈ criticisms, c.Addable) :
    (files.worklist.add criticisms).Advances files fun _ => True := by
  apply TreeStep.advances_of_ok
  intro tree count after hd hexec
  rcases (WorklistFile.exec_add hexec).2 with ⟨-, rfl⟩ | hsave
  · exact .refl files hd
  · exact StateFiles.advance_of_save hd (fun hsound => Worklist.insertAll_history hsound h) hsave

-- A status that was set was saved.
theorem exec_setStatus (hd : tree.HasDirectory) {id : String} {status : Status}
    {reasoning : Option String} {moved : Bool}
    (h : (files.worklist.setStatus id status reasoning).exec tree = (.ok moved, after)) :
    files.Advance tree after ∧
      (moved = true → ∃ names text, after.Holds files.worklist.path names text) := by
  rw [WorklistFile.setStatus, TreeStep.exec_get_bind] at h
  cases hset : (files.worklist.load tree).setStatus? id status reasoning with
  | none =>
    rw [hset] at h
    obtain ⟨rfl, rfl⟩ := TreeStep.exec_pure_eq_ok.mp h
    exact ⟨.refl files hd, fun hmoved => absurd hmoved Bool.false_ne_true⟩
  | some worklist =>
    -- what was set is saved
    rw [hset] at h
    obtain ⟨_, between, hsave, hpure⟩ := TreeStep.exec_bind_eq_ok.mp h
    obtain ⟨rfl, rfl⟩ := TreeStep.exec_pure_eq_ok.mp hpure
    obtain ⟨target, hsaved⟩ := Tree.saved_of_saveText hd hsave
    exact ⟨StateFiles.advance_of_save hd (fun hsound => Worklist.setStatus?_history hsound hset)
      hsave, fun _ => ⟨target, _, hsaved.holds⟩⟩

theorem advances_stamp {now : Instant} (hnow : now.isValid = true) :
    (files.worklist.stamp now).Advances files fun _ => True := by
  apply TreeStep.advances_of_ok
  intro tree _ after hd hexec
  rw [WorklistFile.exec_stamp] at hexec
  exact StateFiles.advance_of_save hd (fun hsound => Worklist.stamp_history hsound hnow) hexec

end Worklist

/-! ## 3. Reviews -/

/-- The reasoning that a review sets and notes. -/
def reviewReasoning (verb : Verb) (reason : Option String) : Option String :=
  if verb = .skip then none else reason.filter fun text => !Text.isBlankText text.toList

/-- A review sets a status.  If it set one, and notes decisions of its kind, it adds an entry to
the log; otherwise it does no more. -/
theorem exec_review {files : StateFiles} {today : Date} {verb : Verb} {id : String}
    {reason : Option String} {tree after : Tree} {outcome : ReviewOutcome}
    (h : (review files today verb id reason).exec tree = (.ok outcome, after)) :
    ∃ moved between, (files.worklist.setStatus id verb.status
        (reviewReasoning verb reason)).exec tree = (.ok moved, between) ∧
      ((∃ criticism decision, moved = true ∧ verb.decision? = some decision ∧
          outcome = .updated criticism ∧
          (files.preferences.add (criticism.entry today decision
            (reviewReasoning verb reason))).exec between = (.ok (), after)) ∨
        after = between ∧ (verb.decision? = none ∨ outcome.isUpdated = false)) := by
  rw [review] at h
  obtain ⟨moved, between, hset, h⟩ := TreeStep.exec_bind_eq_ok.mp h
  refine ⟨moved, between, hset, ?_⟩
  cases moved with
  | false =>
    refine Or.inr ?_
    rw [if_neg Bool.false_ne_true, TreeStep.exec_get_bind] at h
    split at h
    · obtain ⟨rfl, rfl⟩ := TreeStep.exec_pure_eq_ok.mp h
      exact ⟨rfl, Or.inr rfl⟩
    · obtain ⟨rfl, rfl⟩ := TreeStep.exec_pure_eq_ok.mp h
      exact ⟨rfl, Or.inr rfl⟩
  | true =>
    rw [if_pos rfl, TreeStep.exec_get_bind] at h
    split at h
    next =>
      obtain ⟨rfl, rfl⟩ := TreeStep.exec_pure_eq_ok.mp h
      exact Or.inr ⟨rfl, Or.inr rfl⟩
    next criticism _ =>
      cases hdecision : verb.decision? with
      | none =>
        rw [hdecision] at h
        obtain ⟨-, rfl⟩ := TreeStep.exec_pure_eq_ok.mp h
        exact Or.inr ⟨rfl, Or.inl rfl⟩
      | some decision =>
        rw [hdecision] at h
        obtain ⟨_, _, hadd, hpure⟩ := TreeStep.exec_bind_eq_ok.mp h
        obtain ⟨rfl, rfl⟩ := TreeStep.exec_pure_eq_ok.mp hpure
        exact Or.inl ⟨criticism, decision, rfl, rfl, rfl, hadd⟩

theorem advances_review {files : StateFiles} (today : Date) (verb : Verb) (id : String)
    (reason : Option String) :
    (review files today verb id reason).Advances files fun _ => True := by
  apply TreeStep.advances_of_ok
  intro tree outcome after hd hexec
  obtain ⟨moved, between, hset, hrest⟩ := exec_review hexec
  obtain ⟨hadvance, hstore⟩ := exec_setStatus hd hset
  rcases hrest with ⟨criticism, decision, hmoved, -, -, hadd⟩ | ⟨rfl, -⟩
  · -- the worklist was saved before the log is
    obtain ⟨names, text, hholds⟩ := hstore hmoved
    exact hadvance.trans (StateFiles.advance_of_addEntry hholds hadd)
  · exact hadvance

/-! ## 4. Analyses -/

section Analyses

variable {files : StateFiles} {now : Instant}

theorem advances_commit (hnow : now.isValid = true) (stats : AnalysisStats)
    (outcomes : List Outcome) :
    (commit files now stats outcomes).Advances files AnalysisError.IsWrite := by
  unfold commit
  refine TreeStep.advances_get.bind fun tree => ?_
  refine TreeStep.Advances.bind ?_ fun stored => TreeStep.advances_pure _
  refine (advances_add ?_).adapt fun error _ => ⟨error, rfl⟩
  rw [List.forall_mem_map]
  exact fun finding _ => ⟨Criticism.isIdentified_record finding now, hnow⟩

theorem advances_stampAnalysis (hnow : now.isValid = true) :
    TreeStep.Advances files AnalysisError.IsWrite
      (ExceptT.adapt .write (files.worklist.stamp now)) :=
  (advances_stamp hnow).adapt fun error _ => ⟨error, rfl⟩

variable {analyzer : Analyzer} (hstate : analyzer.state = files)

include hstate

/-- A run lists the project's files, and commits what the detectors found. -/
theorem advances_run (hnow : now.isValid = true) (changed : Option PathSet) :
    (analyzer.run now changed).Advances files AnalysisError.IsWrite := by
  unfold Analyzer.run
  refine TreeStep.advances_get.bind fun tree => ?_
  refine TreeStep.Advances.bind ?_ fun paths => ?_
  · unfold Analyzer.run.liftExcept
    cases projectPaths tree analyzer.config.skipDirs false analyzer.root with
    | ok paths => exact TreeStep.advances_pure paths
    | error error => exact TreeStep.advances_throw error
  · rw [hstate]
    exact advances_commit hnow _ _

theorem advances_analyzeProject (hnow : now.isValid = true) :
    (analyzer.analyzeProject now).Advances files AnalysisError.IsWrite := by
  unfold Analyzer.analyzeProject
  refine (advances_run hstate hnow none).bind fun report => ?_
  rw [hstate]
  exact (advances_stampAnalysis hnow).bind fun _ => TreeStep.advances_pure report

theorem advances_analyzeChanged (hnow : now.isValid = true) (paths : List Path) :
    (analyzer.analyzeChanged now paths).Advances files AnalysisError.IsWrite := by
  unfold Analyzer.analyzeChanged
  dsimp only
  split
  · exact TreeStep.advances_pure _
  · refine (advances_run hstate hnow _).bind fun report => ?_
    rw [hstate]
    exact (advances_stampAnalysis hnow).bind fun _ => TreeStep.advances_pure report

theorem advances_suggestTests (hnow : now.isValid = true) (paths : List Path) :
    (analyzer.suggestTests now paths).Advances files AnalysisError.IsWrite := by
  unfold Analyzer.suggestTests
  dsimp only
  split
  · exact TreeStep.advances_pure _
  · rw [hstate]
    exact TreeStep.advances_get.bind fun tree => advances_commit hnow _ _

end Analyses

end Scrutiny
