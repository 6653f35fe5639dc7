import Scrutiny.Proofs.State.Steps

/-!
Runs of operations on a project's state.  Between operations the project itself may change, but
nobody else touches the worklist and the preference log.
-/

namespace Scrutiny

/-! ## 1. Operations -/

/-- What may be done with a project's state. -/
inductive Operation
  /-- Adds findings, each made at its own time. -/
  | add (findings : List (Finding × Instant))
  | setStatus (id : String) (status : Status) (reasoning : Option String)
  | stamp (now : Instant)
  | review (today : Date) (verb : Verb) (id : String) (reason : Option String)
  | analyzeProject (analyzer : Analyzer) (now : Instant)
  | analyzeChanged (analyzer : Analyzer) (now : Instant) (paths : List Path)
  | suggestTests (analyzer : Analyzer) (now : Instant) (paths : List Path)

namespace Operation

/-- Carries out an operation on the state in the given files. -/
def run (files : StateFiles) : Operation → TreeStep AnalysisError Unit
  | add findings => do
      let _ ← ExceptT.adapt .write
        (files.worklist.add (findings.map fun (finding, now) => finding.record now))
  | setStatus id status reasoning => do
      let _ ← ExceptT.adapt .write (files.worklist.setStatus id status reasoning)
  | stamp now => ExceptT.adapt .write (files.worklist.stamp now)
  | review today verb id reason => do
      let _ ← ExceptT.adapt .write (Scrutiny.review files today verb id reason)
  | analyzeProject analyzer now => do
      let _ ← { analyzer with state := files }.analyzeProject now
  | analyzeChanged analyzer now paths => do
      let _ ← { analyzer with state := files }.analyzeChanged now paths
  | suggestTests analyzer now paths => do
      let _ ← { analyzer with state := files }.suggestTests now paths

/-- The clock showed instants that there are. -/
def IsDated : Operation → Prop
  | add findings => ∀ finding ∈ findings, finding.2.isValid = true
  | setStatus _ _ _ => True
  | stamp now => now.isValid = true
  | review _ _ _ _ => True
  | analyzeProject _ now => now.isValid = true
  | analyzeChanged _ now _ => now.isValid = true
  | suggestTests _ now _ => now.isValid = true

theorem advances_run {files : StateFiles} {operation : Operation} (h : operation.IsDated) :
    (operation.run files).Advances files AnalysisError.IsWrite := by
  have hwrite : ∀ error : WriteError, True → AnalysisError.IsWrite (.write error) :=
    fun error _ => ⟨error, rfl⟩
  cases operation with
  | add findings =>
    refine ((advances_add ?_).adapt hwrite).bind fun _ => TreeStep.advances_pure _
    rw [List.forall_mem_map]
    exact fun finding hfinding => ⟨Criticism.isIdentified_record _ _, h finding hfinding⟩
  | setStatus id status reasoning =>
    refine (TreeStep.Advances.adapt ?_ hwrite).bind fun _ => TreeStep.advances_pure _
    exact TreeStep.advances_of_ok fun tree moved after hd hexec => (exec_setStatus hd hexec).1
  | stamp now => exact (advances_stamp h).adapt hwrite
  | review today verb id reason =>
    exact ((advances_review today verb id reason).adapt hwrite).bind
      fun _ => TreeStep.advances_pure _
  | analyzeProject analyzer now =>
    exact (advances_analyzeProject rfl h).bind fun _ => TreeStep.advances_pure _
  | analyzeChanged analyzer now paths =>
    exact (advances_analyzeChanged rfl h paths).bind fun _ => TreeStep.advances_pure _
  | suggestTests analyzer now paths =>
    exact (advances_suggestTests rfl h paths).bind fun _ => TreeStep.advances_pure _

/-- The operation leads to a tree, and no write fails on the way. -/
def Leads (files : StateFiles) (operation : Operation) (tree after : Tree) : Prop :=
  ∃ result, (operation.run files).exec tree = (result, after) ∧
    ∀ error, result = .error error → ¬ error.IsWrite

end Operation

/-! ## 2. Runs -/

/-- Nobody touched the state: both files say what they said. -/
structure StateFiles.Untouched (files : StateFiles) (tree after : Tree) : Prop where
  directory : after.HasDirectory
  worklist : after.readText? files.worklist.path = tree.readText? files.worklist.path
  preferences : after.readText? files.preferences.path = tree.readText? files.preferences.path

/-- What operations make of a tree, in any number and order.  Wherever the run comes, the worklist
and the log are different files. -/
inductive Run (files : StateFiles) (start : Tree) : Tree → Prop
  | refl : Run files start start
  | operation {tree after : Tree} (operation : Operation) (run : Run files start tree)
      (dated : operation.IsDated) (leads : operation.Leads files tree after)
      (apart : files.Apart after) : Run files start after
  | surroundings {tree after : Tree} (run : Run files start tree)
      (untouched : files.Untouched tree after) (apart : files.Apart after) : Run files start after

namespace Run

variable {files : StateFiles} {start tree later : Tree}

theorem progress_of_untouched {after : Tree} (h : files.Untouched tree after) :
    files.Progress tree after := by
  have hload := WorklistFile.load_congr h.worklist
  have hentries : files.preferences.entries after = files.preferences.entries tree := by
    rw [PreferenceFile.entries, PreferenceFile.entries, PreferenceFile.load, PreferenceFile.load,
      h.preferences]
  refine ⟨fun hsound => ?_, hentries ▸ .refl _⟩
  rw [hload]
  exact ⟨hsound, .refl _⟩

/-- Along a run the worklist has a history, and the log only grows. -/
theorem progress (hd : start.HasDirectory) (h : Run files start tree) :
    tree.HasDirectory ∧ files.Progress start tree := by
  induction h with
  | refl => exact ⟨hd, .refl files start⟩
  | operation operation _ dated leads apart ih =>
    obtain ⟨result, hexec, hfatal⟩ := leads
    have hadvance := Operation.advances_run dated _ result _ ih.1 hexec hfatal
    exact ⟨hadvance.directory, ih.2.trans (hadvance.progress apart)⟩
  | surroundings _ untouched apart ih =>
    exact ⟨untouched.directory, ih.2.trans (progress_of_untouched untouched)⟩

theorem isSound_load (hd : start.HasDirectory)
    (hmissing : start.exists files.worklist.path = false) (h : Run files start tree) :
    (files.worklist.load tree).IsSound := by
  have hread : start.readText? files.worklist.path = none := by
    have hnode : start.node? files.worklist.path = none := by
      simpa [Tree.exists] using hmissing
    rw [Tree.readText?, Tree.content?, hnode]
    rfl
  have hempty : (files.worklist.load start).IsSound := by
    rw [WorklistFile.load_of_missing hread]
    exact Worklist.isSound_empty
  exact ((h.progress hd).2.records hempty).1

/-- The history of a worklist that started as a missing file.  Wherever a run has come, no
identity is there twice and every record has its own; and wherever it comes later, the identities
are still the first ones, no record has another time of creation, and none has returned to
pending. -/
theorem history (hd : start.HasDirectory)
    (hmissing : start.exists files.worklist.path = false) (h : Run files start tree)
    (hlater : Run files tree later) :
    (files.worklist.load tree).ids.Nodup ∧
      (∀ criticism ∈ (files.worklist.load tree).criticisms,
        criticism.id = Identity.of criticism.category criticism.subject
          (criticism.files.map Path.text)) ∧
      (files.worklist.load tree).ids <+: (files.worklist.load later).ids ∧
      ∀ before ∈ (files.worklist.load tree).criticisms,
        ∀ after ∈ (files.worklist.load later).criticisms, after.id = before.id →
          after.createdAt = before.createdAt ∧
            (before.status ≠ .pending → after.status ≠ .pending) := by
  have hsound := h.isSound_load hd hmissing
  obtain ⟨hafter, hextends⟩ := (hlater.progress (h.progress hd).1).2.records hsound
  refine ⟨hsound.nodup, hsound.identified, hextends.ids_prefix, ?_⟩
  intro before hbefore after hmem hid
  have hevolves := hextends.evolves hafter.nodup hbefore hmem hid
  exact ⟨hevolves.createdAt, hevolves.reviewed⟩

end Run

/-! ## 3. One run -/

namespace Sample

/-- Two files in the working directory. -/
def files : StateFiles :=
  ⟨⟨⟨"c.json"⟩⟩, ⟨⟨"p.md"⟩⟩⟩

def finding : Finding where
  category := .elim
  subject := "use `old`"
  description := "unused"
  files := [⟨"src/a.ts"⟩]
  location := none
  severity := .low

def epoch : Instant := ⟨0, 0⟩

theorem isValid_epoch : epoch.isValid = true := by
  decide +kernel

/-- The worklist with the finding on record. -/
def proposed : Worklist :=
  ⟨[finding.record epoch], none⟩

/-- The worklist with the finding in another state. -/
def reviewed (status : Status) : Worklist :=
  ⟨[{ finding.record epoch with status := status }], none⟩

theorem isDated_proposed : proposed.IsDated :=
  ⟨by simp [proposed, Finding.record, isValid_epoch], by simp [proposed]⟩

theorem isDated_reviewed (status : Status) : (reviewed status).IsDated :=
  ⟨by simp [reviewed, Finding.record, isValid_epoch], by simp [reviewed]⟩

theorem isPlain_worklist : Tree.isPlain "c.json" = true := by
  decide +kernel

theorem isPlain_preferences : Tree.isPlain "p.md" = true := by
  decide +kernel

/-- The tree that holds a worklist and no log. -/
def storeOnly (worklist : Worklist) : Tree :=
  .flat [("c.json", .file (.text (worklist.text ++ "\n")))]

theorem apart_storeOnly (worklist : Worklist) : files.Apart (storeOnly worklist) := by
  intro _ _ names' text' _ hlog
  have hread := hlog.readText?
  rw [storeOnly, files, Tree.readText?_flat_free isPlain_preferences rfl] at hread
  exact absurd hread (by simp)

theorem load_storeOnly {worklist : Worklist} (h : worklist.IsDated) :
    files.worklist.load (storeOnly worklist) = worklist :=
  WorklistFile.load_of_holds h (Tree.holds_flat isPlain_worklist rfl)

-- Saving a worklist where there is no other file.
theorem exec_save (entries : List (String × Node))
    (hentries : ∀ node, entries.lookup "c.json" = some node → ∃ content, node = .file content)
    (worklist : Worklist) : (files.worklist.save worklist).exec (.flat entries) =
      (.ok (), .flat (Node.putEntry "c.json" (.file (.text (worklist.text ++ "\n"))) entries)) :=
  Tree.exec_saveText_flat isPlain_worklist _ hentries

theorem load_missing : files.worklist.load (.flat []) = .empty :=
  WorklistFile.load_of_missing (Tree.readText?_flat_free isPlain_worklist rfl)

theorem exec_add_finding : (files.worklist.add [finding.record epoch]).exec (.flat []) =
    (.ok 1, storeOnly proposed) := by
  rw [WorklistFile.add, TreeStep.exec_get_bind, load_missing]
  exact TreeStep.exec_bind_of_ok (exec_save [] (by simp) proposed)

theorem leads_add :
    (Operation.add [(finding, epoch)]).Leads files (.flat []) (storeOnly proposed) := by
  refine ⟨.ok (), ?_, by simp⟩
  rw [Operation.run, List.map_singleton, TreeStep.exec_bind, TreeStep.exec_adapt, exec_add_finding]
  rfl

theorem setStatus?_proposed {status : Status} (h : status.isPending = false) :
    proposed.setStatus? finding.id status none = some (reviewed status) := by
  simp [Worklist.setStatus?, Worklist.get?, proposed, reviewed, Finding.record,
    Criticism.setStatus?, Status.mayBecome, h, Worklist.changeFirst]

theorem exec_setStatus {status : Status} (h : status.isPending = false) :
    (files.worklist.setStatus finding.id status none).exec (storeOnly proposed) =
      (.ok true, storeOnly (reviewed status)) := by
  rw [WorklistFile.setStatus, TreeStep.exec_get_bind, load_storeOnly isDated_proposed,
    setStatus?_proposed h]
  exact TreeStep.exec_bind_of_ok (exec_save _ (by simp) (reviewed status))

theorem leads_setStatus : (Operation.setStatus finding.id .accepted none).Leads files
    (storeOnly proposed) (storeOnly (reviewed .accepted)) := by
  refine ⟨.ok (), ?_, by simp⟩
  rw [Operation.run, TreeStep.exec_bind, TreeStep.exec_adapt, exec_setStatus rfl]
  rfl

/-- A finding is added to a missing worklist and then accepted. -/
theorem history_accepted :
    proposed.ids.Nodup ∧
      (finding.record epoch).id = Identity.of .elim "use `old`" ["src/a.ts"] ∧
      proposed.ids <+: (reviewed .accepted).ids ∧
      ({ finding.record epoch with status := .accepted } : Criticism).createdAt = epoch := by
  have hadded : Run files (.flat []) (storeOnly proposed) :=
    .operation (.add [(finding, epoch)]) .refl (by simp [Operation.IsDated, isValid_epoch])
      leads_add (apart_storeOnly proposed)
  have haccepted : Run files (storeOnly proposed) (storeOnly (reviewed .accepted)) :=
    .operation (.setStatus finding.id .accepted none) .refl trivial leads_setStatus
      (apart_storeOnly (reviewed .accepted))
  have hmissing : (Tree.flat []).exists files.worklist.path = false := by
    have hfree : (Tree.flat []).place true ⟨"c.json"⟩ = .ok (.free [] "c.json") :=
      Tree.place_flat_free isPlain_worklist rfl
    rw [Tree.exists, Tree.node?, files, hfree]
    rfl
  obtain ⟨hnodup, hid, hprefix, hevolves⟩ :=
    Run.history (Tree.hasDirectory_flat []) hmissing hadded haccepted
  rw [load_storeOnly isDated_proposed] at hnodup hid hprefix hevolves
  rw [load_storeOnly (isDated_reviewed .accepted)] at hprefix hevolves
  exact ⟨hnodup, hid _ List.mem_cons_self, hprefix,
    (hevolves _ List.mem_cons_self _ List.mem_cons_self rfl).1⟩

end Sample

end Scrutiny
