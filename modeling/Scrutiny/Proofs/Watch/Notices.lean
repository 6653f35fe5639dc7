import Mathlib.Data.List.Induction
import Scrutiny.Proofs.Detect.Scope
import Scrutiny.Proofs.Stripping
import Scrutiny.Watch.Watcher

/-!
The history of a watcher.  Notices of any paths come in any order, and the watcher may be stopped
among them.  From the files that the scan found and the events so far one can tell which files are
known, and which event the next notice brings.
-/

namespace Scrutiny

/-! ## 1. The events of a path -/

/-- The events of one path among all. -/
def eventsOf (path : Path) (events : List WatchEvent) : List WatchEvent :=
  events.filter fun event => event.path.same path

/-- What happened to the path last. -/
def lastKind? (path : Path) (events : List WatchEvent) : Option EventKind :=
  (eventsOf path events).getLast?.map WatchEvent.kind

/-- The file is there as far as one knows: it was not removed last or, without an event, it was
scanned. -/
def IsPresent (scanned : PathSet) (events : List WatchEvent) (path : Path) : Prop :=
  match lastKind? path events with
  | some kind => kind ≠ .unlink
  | none => scanned.contains path = true

theorem eventsOf_append (path : Path) (front back : List WatchEvent) :
    eventsOf path (front ++ back) = eventsOf path front ++ eventsOf path back :=
  List.filter_append ..

theorem eventsOf_singleton (path : Path) (event : WatchEvent) :
    eventsOf path [event] = if event.path.same path then [event] else [] := by
  unfold eventsOf
  rw [List.filter_singleton]
  cases event.path.same path <;> rfl

theorem lastKind?_snoc (path : Path) (events : List WatchEvent) (event : WatchEvent) :
    lastKind? path (events ++ [event]) =
      if event.path.same path then some event.kind else lastKind? path events := by
  unfold lastKind?
  rw [eventsOf_append, eventsOf_singleton]
  by_cases h : event.path.same path = true
  · rw [if_pos h, if_pos h, List.getLast?_concat]
    rfl
  · rw [if_neg h, if_neg h, List.append_nil]

theorem isPresent_snoc (scanned : PathSet) (events : List WatchEvent) (event : WatchEvent)
    (path : Path) : IsPresent scanned (events ++ [event]) path ↔
      if event.path.same path then event.kind ≠ .unlink else IsPresent scanned events path := by
  unfold IsPresent
  rw [lastKind?_snoc]
  by_cases h : event.path.same path = true
  · rw [if_pos h, if_pos h]
  · rw [if_neg h, if_neg h]

-- An event of the path that is among the last ones settles what is known of it.
theorem exists_unlink_of_not_isPresent {scanned : PathSet} {front later : List WatchEvent}
    {event : WatchEvent} {path : Path} (hpath : event.path.same path = true)
    (hkind : event.kind ≠ .unlink) (h : ¬ IsPresent scanned (front ++ event :: later) path) :
    ∃ gone ∈ later, gone.kind = .unlink ∧ gone.path.same path = true := by
  induction later using List.reverseRecOn with
  | nil =>
    rw [isPresent_snoc, if_pos hpath] at h
    exact absurd hkind h
  | append_singleton later last ih =>
    rw [← List.cons_append, ← List.append_assoc, isPresent_snoc] at h
    by_cases hlast : last.path.same path = true
    · rw [if_pos hlast, not_not] at h
      exact ⟨last, by simp, h, hlast⟩
    · rw [if_neg hlast] at h
      obtain ⟨gone, hgone, hrest⟩ := ih h
      exact ⟨gone, List.mem_append_left _ hgone, hrest⟩

/-! ## 2. Notices -/

namespace Watcher

/-- The notice means something to the watcher. -/
structure Heeds (watcher : Watcher) (path : Path) (sighting : Sighting) (relative : Path) :
    Prop where
  rest : watcher.root.stripBase? path = some relative
  below : relative.text.isEmpty = false
  accepted : watcher.accepts relative = true
  notDirectory : sighting ≠ .directory
  live : watcher.isStopped = false

variable {watcher : Watcher} {path : Path} {sighting : Sighting}

theorem notice_of_heeds {relative : Path} (h : watcher.Heeds path sighting relative)
    (timestamp : Nat) :
    watcher.notice path sighting timestamp =
      (some ⟨(observe watcher.seen relative (sighting = .file)).1, relative, timestamp⟩,
        { watcher with seen := (observe watcher.seen relative (sighting = .file)).2 }) := by
  unfold notice
  rw [h.rest]
  show (if _ then _ else _) = _
  rw [if_neg]
  simp [h.below, h.accepted, h.notDirectory, h.live]

theorem notice_of_not_heeds (h : ∀ relative, ¬ watcher.Heeds path sighting relative)
    (timestamp : Nat) : watcher.notice path sighting timestamp = (none, watcher) := by
  unfold notice
  split
  next => rfl
  next relative hrest =>
    rw [if_pos]
    by_contra hnot
    apply h relative
    simp only [Bool.or_eq_true, Bool.not_eq_true', decide_eq_true_eq, not_or,
      Bool.not_eq_true, Bool.not_eq_false] at hnot
    obtain ⟨⟨⟨hbelow, haccepted⟩, hdirectory⟩, hlive⟩ := hnot
    exact ⟨hrest, hbelow, haccepted, hdirectory, hlive⟩

theorem kind_observe (seen : PathSet) (path : Path) (here : Bool) :
    (observe seen path here).1 =
      if here then if seen.contains path then .change else .add else .unlink := by
  unfold observe
  cases here
  · rfl
  · cases seen.contains path <;> rfl

theorem kind_observe_iff (seen : PathSet) (path : Path) {sighting : Sighting}
    (h : sighting ≠ .directory) :
    ((observe seen path (sighting = .file)).1 = .unlink ↔ sighting = .missing) ∧
    ((observe seen path (sighting = .file)).1 = .add ↔
      sighting = .file ∧ seen.contains path = false) ∧
    ((observe seen path (sighting = .file)).1 = .change ↔
      sighting = .file ∧ seen.contains path = true) := by
  rw [kind_observe]
  cases sighting with
  | missing => simp
  | directory => exact absurd rfl h
  | file => cases seen.contains path <;> simp

theorem contains_observe (seen : PathSet) (path : Path) (here : Bool) (other : Path) :
    (observe seen path here).2.contains other =
      if path.same other then here else seen.contains other := by
  unfold observe
  cases here
  · show List.any (List.filter _ _) _ = _
    rw [List.any_filter]
    by_cases h : path.same other = true
    · rw [if_pos h, List.any_eq_false]
      intro member hmember
      simp [Path.same_congr_right h]
    · rw [if_neg h]
      unfold PathSet.contains
      refine List.any_congr rfl fun member => ?_
      cases hmember : member.same other
      · simp
      · have hpath : member.same path = false := by
          rw [Path.same_comm, Path.same_congr_right hmember]
          exact eq_false_of_ne_true h
        simp [hpath]
  · by_cases hseen : seen.contains path = true
    · rw [if_neg (by simp), if_pos hseen]
      by_cases h : path.same other = true
      · rw [if_pos h, ← PathSet.contains_congr h, hseen]
      · rw [if_neg h]
    · rw [if_neg (by simp), if_neg hseen, PathSet.contains_insert]
      cases path.same other <;> simp

/-! ## 3. Runs -/

/-- Something that a watcher is told. -/
inductive Step
  | notice (path : Path) (sighting : Sighting) (timestamp : Nat)
  | stop
  deriving DecidableEq, Repr

def step (watcher : Watcher) : Step → Option WatchEvent × Watcher
  | .notice path sighting timestamp => watcher.notice path sighting timestamp
  | .stop => (none, watcher.stop)

/-- The watcher after some steps. -/
def after (watcher : Watcher) (steps : List Step) : Watcher :=
  steps.foldl (fun watcher step => (watcher.step step).2) watcher

/-- All that the watcher reports in the course of some steps. -/
def events (watcher : Watcher) : List Step → List WatchEvent
  | [] => []
  | step :: steps => (watcher.step step).1.toList ++ (watcher.step step).2.events steps

theorem after_append (watcher : Watcher) (before later : List Step) :
    watcher.after (before ++ later) = (watcher.after before).after later :=
  List.foldl_append

theorem after_snoc (watcher : Watcher) (steps : List Step) (step : Step) :
    watcher.after (steps ++ [step]) = ((watcher.after steps).step step).2 :=
  watcher.after_append steps [step]

theorem events_append (watcher : Watcher) (before later : List Step) :
    watcher.events (before ++ later) =
      watcher.events before ++ (watcher.after before).events later := by
  induction before generalizing watcher with
  | nil => rfl
  | cons step before ih =>
    show _ ++ Watcher.events _ (before ++ later) = _ ++ _ ++ _
    rw [ih, List.append_assoc]
    rfl

theorem events_snoc (watcher : Watcher) (steps : List Step) (step : Step) :
    watcher.events (steps ++ [step]) =
      watcher.events steps ++ ((watcher.after steps).step step).1.toList := by
  rw [events_append]
  show _ ++ (_ ++ []) = _
  rw [List.append_nil]

/-- Each event came with some step, and the events before it with the steps before that. -/
theorem exists_step_of_events {steps : List Step} {front later : List WatchEvent}
    {event : WatchEvent} (h : watcher.events steps = front ++ event :: later) :
    ∃ before step rest, steps = before ++ step :: rest ∧ watcher.events before = front ∧
      ((watcher.after before).step step).1 = some event := by
  induction steps generalizing watcher front with
  | nil => simp [events] at h
  | cons step steps ih =>
    change (watcher.step step).1.toList ++ (watcher.step step).2.events steps = _ at h
    cases hstep : (watcher.step step).1 with
    | none =>
      rw [hstep] at h
      obtain ⟨before, other, rest, hsteps, hfront, hother⟩ := ih h
      refine ⟨step :: before, other, rest, by rw [hsteps, List.cons_append], ?_, hother⟩
      show (watcher.step step).1.toList ++ _ = front
      rw [hstep]
      exact hfront
    | some first =>
      rw [hstep] at h
      cases front with
      | nil =>
        obtain ⟨rfl, -⟩ := List.cons.inj h
        exact ⟨[], step, steps, rfl, rfl, hstep⟩
      | cons head front =>
        obtain ⟨rfl, hrest⟩ := List.cons.inj h
        obtain ⟨before, other, rest, hsteps, hfront, hother⟩ := ih hrest
        refine ⟨step :: before, other, rest, by rw [hsteps, List.cons_append], ?_, hother⟩
        show (watcher.step step).1.toList ++ _ = _
        rw [hstep, hfront]
        rfl

/-- A notice is heeded or changes nothing. -/
theorem notice_cases (watcher : Watcher) (path : Path) (sighting : Sighting) (timestamp : Nat) :
    (∃ relative, watcher.Heeds path sighting relative ∧
      watcher.notice path sighting timestamp =
        (some ⟨(observe watcher.seen relative (sighting = .file)).1, relative, timestamp⟩,
          { watcher with seen := (observe watcher.seen relative (sighting = .file)).2 })) ∨
    (∀ relative, ¬ watcher.Heeds path sighting relative) ∧
      watcher.notice path sighting timestamp = (none, watcher) := by
  by_cases h : ∃ relative, watcher.Heeds path sighting relative
  · obtain ⟨relative, hheeds⟩ := h
    exact .inl ⟨relative, hheeds, notice_of_heeds hheeds timestamp⟩
  · have hnot := not_exists.mp h
    exact .inr ⟨hnot, notice_of_not_heeds hnot timestamp⟩

theorem isSome_notice (watcher : Watcher) (path : Path) (sighting : Sighting) (timestamp : Nat) :
    (watcher.notice path sighting timestamp).1.isSome = true ↔
      ∃ relative, watcher.Heeds path sighting relative := by
  obtain ⟨relative, hheeds, hnotice⟩ | ⟨hnot, hnotice⟩ :=
    watcher.notice_cases path sighting timestamp
  · rw [hnotice]
    exact iff_of_true rfl ⟨relative, hheeds⟩
  · rw [hnotice]
    exact iff_of_false Bool.false_ne_true (not_exists.mpr hnot)

theorem root_step (watcher : Watcher) (step : Step) :
    (watcher.step step).2.root = watcher.root := by
  cases step with
  | notice path sighting timestamp =>
    obtain ⟨_, _, hnotice⟩ | ⟨_, hnotice⟩ := watcher.notice_cases path sighting timestamp <;>
      rw [step, hnotice]
  | stop => rfl

theorem accepts_step (watcher : Watcher) (step : Step) :
    (watcher.step step).2.accepts = watcher.accepts := by
  cases step with
  | notice path sighting timestamp =>
    obtain ⟨_, _, hnotice⟩ | ⟨_, hnotice⟩ := watcher.notice_cases path sighting timestamp <;>
      rw [step, hnotice]
  | stop => rfl

theorem isStopped_step (watcher : Watcher) (step : Step) :
    (watcher.step step).2.isStopped = true ↔ watcher.isStopped = true ∨ step = .stop := by
  cases step with
  | notice path sighting timestamp =>
    obtain ⟨_, _, hnotice⟩ | ⟨_, hnotice⟩ := watcher.notice_cases path sighting timestamp <;>
      rw [step, hnotice] <;> simp
  | stop => exact iff_of_true rfl (.inr rfl)

/-- The known files are those that are there as far as the events tell. -/
def Knows (watcher : Watcher) (scanned : PathSet) (events : List WatchEvent) : Prop :=
  ∀ path, watcher.seen.contains path = true ↔ IsPresent scanned events path

theorem Knows.step {scanned : PathSet} {events : List WatchEvent}
    (h : watcher.Knows scanned events) (step : Step) :
    (watcher.step step).2.Knows scanned (events ++ (watcher.step step).1.toList) := by
  cases step with
  | stop =>
    show watcher.stop.Knows scanned (events ++ [])
    rw [List.append_nil]
    exact h
  | notice path sighting timestamp =>
    obtain ⟨relative, hheeds, hnotice⟩ | ⟨_, hnotice⟩ :=
      watcher.notice_cases path sighting timestamp
    · rw [Watcher.step, hnotice]
      intro other
      show (observe _ _ _).2.contains other = true ↔ IsPresent scanned (events ++ [_]) other
      rw [contains_observe, isPresent_snoc, kind_observe]
      by_cases hother : relative.same other = true
      · rw [if_pos hother, if_pos hother]
        cases sighting
        · simp
        · exact absurd rfl hheeds.notDirectory
        · cases watcher.seen.contains relative <;> simp
      · rw [if_neg hother, if_neg hother]
        exact h other
    · rw [Watcher.step, hnotice]
      show watcher.Knows scanned (events ++ [])
      rw [List.append_nil]
      exact h

/-! ## 4. From the scan on -/

/-- A watcher that has scanned the project and was told nothing yet. -/
def opened (names : List String) (accepts : Path → Bool) (scanned : PathSet) : Watcher where
  root := .ofNames names
  accepts := accepts
  seen := scanned

/-- To start watching is to scan the project. -/
theorem eq_opened_of_start {tree : Tree} {root : Path} {config : WatchConfig}
    {accepts : Path → Bool} (h : start tree root config accepts = .ok watcher) :
    ∃ names node, tree.place true root = .ok (.found names node) ∧
      watcher = opened names accepts (.ofList ((scan config node).filter accepts)) := by
  unfold start at h
  split at h
  next names node hplace => exact ⟨names, node, hplace, (Except.ok.inj h).symm⟩
  next => exact nomatch h

variable {names : List String} {accepts : Path → Bool} {scanned : PathSet}

theorem root_after (steps : List Step) :
    ((opened names accepts scanned).after steps).root = .ofNames names := by
  induction steps using List.reverseRecOn with
  | nil => rfl
  | append_singleton steps step ih => rw [after_snoc, root_step, ih]

theorem accepts_after (steps : List Step) :
    ((opened names accepts scanned).after steps).accepts = accepts := by
  induction steps using List.reverseRecOn with
  | nil => rfl
  | append_singleton steps step ih => rw [after_snoc, accepts_step, ih]

theorem isStopped_after (names : List String) (accepts : Path → Bool) (scanned : PathSet)
    (steps : List Step) :
    ((opened names accepts scanned).after steps).isStopped = true ↔ .stop ∈ steps := by
  induction steps using List.reverseRecOn with
  | nil => simp [opened, after]
  | append_singleton steps step ih =>
    rw [after_snoc, isStopped_step, ih, List.mem_append, List.mem_singleton, eq_comm]

theorem knows_after (names : List String) (accepts : Path → Bool) (scanned : PathSet)
    (steps : List Step) :
    ((opened names accepts scanned).after steps).Knows scanned
      ((opened names accepts scanned).events steps) := by
  induction steps using List.reverseRecOn with
  | nil => exact fun path => .rfl
  | append_singleton steps step ih =>
    rw [after_snoc, events_snoc]
    exact ih.step step

theorem components_root_ne_nil (names : List String) : (Path.ofNames names).components ≠ [] := by
  have htext : (Path.ofNames names).text.toList = '/' :: ("/".intercalate names).toList := by
    rw [Path.ofNames, String.toList_append]
    rfl
  have hlead : (Path.ofNames names).leadComponents = [.root] := by
    rw [Path.leadComponents, Path.lead, htext]
    rfl
  rw [Path.components, hlead]
  exact List.cons_ne_nil _ _

/-! ## 5. The history of a watcher -/

theorem isPresent_iff {events : List WatchEvent} {path : Path} :
    IsPresent scanned events path ↔
      lastKind? path events = some .add ∨ lastKind? path events = some .change ∨
        lastKind? path events = none ∧ scanned.contains path = true := by
  unfold IsPresent
  cases lastKind? path events with
  | none => simp
  | some kind => cases kind <;> simp

theorem not_isPresent_iff {events : List WatchEvent} {path : Path} :
    ¬ IsPresent scanned events path ↔
      lastKind? path events = some .unlink ∨
        lastKind? path events = none ∧ scanned.contains path = false := by
  unfold IsPresent
  cases lastKind? path events with
  | none => simp
  | some kind => cases kind <;> simp

/-- A notice is heeded if the path lies below the root and is reported, there is no directory, and
the watcher was not stopped. -/
theorem exists_heeds_after (steps : List Step) (path : Path) (sighting : Sighting) :
    (∃ relative, ((opened names accepts scanned).after steps).Heeds path sighting relative) ↔
      (Path.ofNames names).IsAbove path ∧
        (∀ relative, (Path.ofNames names).stripBase? path = some relative →
          accepts relative = true) ∧
        sighting ≠ .directory ∧ .stop ∉ steps := by
  have hlive := isStopped_after names accepts scanned steps
  constructor
  · rintro ⟨relative, hheeds⟩
    have hrest := hheeds.rest
    have haccepted := hheeds.accepted
    rw [root_after] at hrest
    rw [accepts_after] at haccepted
    refine ⟨(Path.isAbove_iff (components_root_ne_nil names)).mpr ⟨relative, hrest, hheeds.below⟩,
      ?_, hheeds.notDirectory, ?_⟩
    · intro other hother
      rwa [← Option.some.inj (hrest.symm.trans hother)]
    · intro hstop
      exact Bool.false_ne_true (hheeds.live.symm.trans (hlive.mpr hstop))
  · rintro ⟨habove, haccepted, hdirectory, hstop⟩
    obtain ⟨relative, hrest, hbelow⟩ :=
      (Path.isAbove_iff (components_root_ne_nil names)).mp habove
    refine ⟨relative, ?_, hbelow, ?_, hdirectory, ?_⟩
    · rwa [root_after]
    · rw [accepts_after]
      exact haccepted relative hrest
    · exact eq_false_of_ne_true (mt hlive.mp hstop)

/-- What an event tells about the notice that it came with. -/
structure Reports (names : List String) (scanned : PathSet) (earlier : List WatchEvent)
    (path : Path) (sighting : Sighting) (timestamp : Nat) (event : WatchEvent) : Prop where
  /-- The event names the notice's path, seen from the root. -/
  rest : (Path.ofNames names).stripBase? path = some event.path
  components : path.components = (Path.ofNames names).components ++ event.path.components
  timestamp : event.timestamp = timestamp
  unlink : event.kind = .unlink ↔ sighting = .missing
  add : event.kind = .add ↔ sighting = .file ∧
    (lastKind? event.path earlier = some .unlink ∨
      lastKind? event.path earlier = none ∧ scanned.contains event.path = false)
  change : event.kind = .change ↔ sighting = .file ∧
    (lastKind? event.path earlier = some .add ∨ lastKind? event.path earlier = some .change ∨
      lastKind? event.path earlier = none ∧ scanned.contains event.path = true)

theorem reports_after {steps : List Step} {path : Path} {sighting : Sighting} {timestamp : Nat}
    {event : WatchEvent}
    (h : (((opened names accepts scanned).after steps).notice path sighting timestamp).1 =
      some event) :
    Reports names scanned ((opened names accepts scanned).events steps) path sighting timestamp
      event := by
  obtain ⟨relative, hheeds, hnotice⟩ | ⟨_, hnotice⟩ :=
    ((opened names accepts scanned).after steps).notice_cases path sighting timestamp
  · rw [hnotice, Option.some.injEq] at h
    subst h
    have hrest := hheeds.rest
    rw [root_after] at hrest
    have hknows := knows_after names accepts scanned steps relative
    obtain ⟨hunlink, hadd, hchange⟩ := kind_observe_iff
      ((opened names accepts scanned).after steps).seen relative hheeds.notDirectory
    refine ⟨hrest, Path.components_of_stripBase? (components_root_ne_nil names) hrest, rfl, hunlink,
      ?_, ?_⟩
    · rw [← not_isPresent_iff, ← hknows, Bool.not_eq_true]
      exact hadd
    · rw [← isPresent_iff, ← hknows]
      exact hchange
  · rw [hnotice] at h
    exact nomatch h

/-- Where a path was added and is added again, it was removed in between. -/
theorem exists_unlink_between (steps : List Step) {front middle later : List WatchEvent}
    {first second : WatchEvent}
    (hevents : (opened names accepts scanned).events steps =
      front ++ first :: middle ++ second :: later)
    (hfirst : first.kind = .add) (hsecond : second.kind = .add)
    (hsame : first.path.same second.path = true) :
    ∃ gone ∈ middle, gone.kind = .unlink ∧ gone.path.same second.path = true := by
  obtain ⟨before, step, rest, -, hearlier, hstep⟩ := exists_step_of_events hevents
  cases step with
  | stop => exact nomatch hstep
  | notice path sighting timestamp =>
    have hadd := (reports_after hstep).add.mp hsecond
    rw [← not_isPresent_iff, hearlier] at hadd
    refine exists_unlink_of_not_isPresent hsame ?_ hadd.2
    rw [hfirst]
    exact nofun

/-- The history of a watcher that scanned some files and was then told of notices, and perhaps to
stop. -/
structure History (names : List String) (accepts : Path → Bool) (scanned : PathSet)
    (steps : List Step) : Prop where
  delivers (path : Path) (sighting : Sighting) (timestamp : Nat) :
    (((opened names accepts scanned).after steps).notice path sighting timestamp).1.isSome = true ↔
      (Path.ofNames names).IsAbove path ∧
        (∀ relative, (Path.ofNames names).stripBase? path = some relative →
          accepts relative = true) ∧
        sighting ≠ .directory ∧ .stop ∉ steps
  reports (path : Path) (sighting : Sighting) (timestamp : Nat) (event : WatchEvent) :
    (((opened names accepts scanned).after steps).notice path sighting timestamp).1 = some event →
      Reports names scanned ((opened names accepts scanned).events steps) path sighting timestamp
        event
  between (front middle later : List WatchEvent) (first second : WatchEvent) :
    (opened names accepts scanned).events steps = front ++ first :: middle ++ second :: later →
      first.kind = .add → second.kind = .add → first.path.same second.path = true →
      ∃ gone ∈ middle, gone.kind = .unlink ∧ gone.path.same second.path = true
  seen (path : Path) :
    ((opened names accepts scanned).after steps).hasSeen path = true ↔
      lastKind? path ((opened names accepts scanned).events steps) = some .add ∨
      lastKind? path ((opened names accepts scanned).events steps) = some .change ∨
      lastKind? path ((opened names accepts scanned).events steps) = none ∧
        scanned.contains path = true

/-- What a watcher reports of a path depends on what it reported of it before, and on the scan. -/
theorem history_after (names : List String) (accepts : Path → Bool) (scanned : PathSet)
    (steps : List Step) : History names accepts scanned steps where
  delivers path sighting timestamp := by
    rw [isSome_notice]
    exact exists_heeds_after steps path sighting
  reports _ _ _ _ := reports_after
  between _ _ _ _ _ := exists_unlink_between steps
  seen path := by
    rw [← isPresent_iff]
    exact knows_after names accepts scanned steps path

example : (opened ["p"] (fun path => path.text != "b.ts") ⟨[⟨"a.ts"⟩]⟩).events
    [.notice ⟨"/p/./a.ts"⟩ .file 1, .notice ⟨"/p/c.ts"⟩ .file 2, .notice ⟨"/p/b.ts"⟩ .file 3,
      .notice ⟨"/p/a.ts"⟩ .missing 4, .notice ⟨"/p/a.ts"⟩ .directory 5,
      .notice ⟨"/p/a.ts/"⟩ .file 6, .stop, .notice ⟨"/p/c.ts"⟩ .file 7] =
    [⟨.change, ⟨"a.ts"⟩, 1⟩, ⟨.add, ⟨"c.ts"⟩, 2⟩, ⟨.unlink, ⟨"a.ts"⟩, 4⟩, ⟨.add, ⟨"a.ts"⟩, 6⟩] := by
  decide

end Watcher

end Scrutiny
