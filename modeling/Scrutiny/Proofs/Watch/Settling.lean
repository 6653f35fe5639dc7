import Scrutiny.Proofs.Watch.Accounts
import Scrutiny.Proofs.Watch.Notices

/-!
A watcher whose events are enqueued in a shared batcher.  However the timers and the flushes fall
between the notices, what the handlers are given for a path are some of its events, in order, and
the last one among them once nothing is queued and nothing is on its way.
-/

namespace Scrutiny

variable {η : Type} {window : Nat}

/-! ## 1. One path in a queue and in a batch -/

-- Among events of different paths there is one of the path at most, so their order is the same.
theorem eventsOf_perm {events others : List WatchEvent} (h : Batcher.Apart events)
    (hperm : others.Perm events) (path : Path) : eventsOf path others = eventsOf path events := by
  have hfilter : (eventsOf path others).Perm (eventsOf path events) := hperm.filter _
  have hapart : Batcher.Apart (eventsOf path events) := h.filter _
  cases hevents : eventsOf path events with
  | nil =>
    rw [hevents] at hfilter
    exact hfilter.eq_nil
  | cons first rest =>
    cases rest with
    | nil =>
      rw [hevents] at hfilter
      exact List.perm_singleton.mp hfilter
    | cons second rest =>
      have hsame : ∀ event ∈ first :: second :: rest, event.path.same path = true := by
        rw [← hevents]
        intro event hevent
        exact (List.mem_filter.mp hevent).2
      rw [hevents] at hapart
      have hdiffer : first.path.same second.path = false :=
        List.rel_of_pairwise_cons hapart List.mem_cons_self
      rw [Path.same_congr_right (hsame second (by simp)), hsame first (by simp)] at hdiffer
      exact absurd hdiffer nofun

theorem eventsOf_put (path : Path) (pending : List WatchEvent) (event : WatchEvent) :
    eventsOf path (Batcher.put pending event) =
      if event.path.same path then [event] else eventsOf path pending := by
  unfold Batcher.put
  rw [eventsOf_append, eventsOf_singleton]
  unfold eventsOf
  rw [List.filter_filter]
  by_cases h : event.path.same path = true
  · rw [if_pos h, if_pos h, List.filter_eq_nil_iff.mpr, List.nil_append]
    intro queued _
    rw [Path.same_congr_right h]
    simp
  · rw [if_neg h, if_neg h, List.append_nil]
    refine List.filter_congr fun queued _ => ?_
    cases hqueued : queued.path.same path with
    | false => rfl
    | true =>
      have hdiffer : queued.path.same event.path = false := by
        rw [Path.same_comm, Path.same_congr_right hqueued]
        exact eq_false_of_ne_true h
      rw [hdiffer]
      rfl

namespace SharedBatcher

variable {shared after : SharedBatcher η} {action : BatcherAction η}
  {trace : List (BatcherAction η)}

/-! ## 2. What the batcher holds of a path -/

theorem eventsOf_drained (hapart : Batcher.Apart shared.batcher.pending) {cause : Batcher.Cause}
    (entered : shared.holder = .entered cause) (hheard : shared.batcher.outcome cause ≠ .unheard)
    (path : Path) : eventsOf path (shared.drained cause).events = eventsOf path shared.events := by
  have hinFlight : shared.holder.inFlight = [] := by
    rw [entered]
    rfl
  have hmoved : eventsOf path
      ((shared.drained cause).holder.inFlight ++ (shared.drained cause).batcher.pending) =
      eventsOf path shared.batcher.pending := by
    obtain ⟨-, htake⟩ | ⟨-, hempty, hnone, hpending⟩ | ⟨houtcome, -⟩ |
      ⟨-, -, ⟨handler, hsome⟩, hpending⟩ := shared.batcher.take_cases cause
    · simp [drained, htake, Holder.inFlight]
    · simp [drained, hnone, hpending, hempty, Holder.inFlight]
    · exact absurd houtcome hheard
    · have hbatch := eventsOf_perm hapart shared.batcher.batch_perm path
      simpa [drained, hsome, hpending, Holder.inFlight] using hbatch
  unfold events
  rw [eventsOf_append, hmoved, hinFlight, List.nil_append, eventsOf_append]
  rfl

/-- The events of a path that are handed over, on their way or queued follow those enqueued: some
may be missing, but not the last. -/
def Follows (shared : SharedBatcher η) (path : Path) (enqueued : List WatchEvent) : Prop :=
  (eventsOf path shared.events).Sublist (eventsOf path enqueued) ∧
    (eventsOf path shared.events).getLast? = (eventsOf path enqueued).getLast?

theorem Follows.enqueue {path : Path} {enqueued : List WatchEvent}
    (h : shared.Follows path enqueued) {event : WatchEvent} {after : SharedBatcher η}
    (hdelivered : after.delivered = shared.delivered) (hholder : after.holder = shared.holder)
    (hpending : after.batcher.pending = Batcher.put shared.batcher.pending event) :
    after.Follows path (enqueued ++ [event]) := by
  obtain ⟨hsublist, hlast⟩ := h
  unfold events at hsublist hlast
  unfold Follows events
  rw [hdelivered, hholder, hpending, ← List.append_assoc, eventsOf_append, eventsOf_put,
    eventsOf_append path enqueued, eventsOf_singleton]
  rw [← List.append_assoc, eventsOf_append] at hsublist hlast
  by_cases hsame : event.path.same path = true
  · rw [if_pos hsame, if_pos hsame]
    refine ⟨?_, by rw [List.getLast?_concat, List.getLast?_concat]⟩
    exact ((List.sublist_append_left _ _).trans hsublist).append (.refl [event])
  · rw [if_neg hsame, if_neg hsame, List.append_nil]
    exact ⟨hsublist, hlast⟩

/-- One step of any thread keeps the last event of the path, unless the queue is cleared or emptied
without a handler. -/
theorem Step.follows (h : shared.Step action after)
    (hapart : Batcher.Apart shared.batcher.pending) (hclear : action ≠ .clear)
    (hheard : action ≠ .drain .unheard) {path : Path} {enqueued : List WatchEvent}
    (hfollows : shared.Follows path enqueued) :
    after.Follows path (enqueued ++ action.enqueued) := by
  -- All steps but the enqueue hold the same events of the path.
  have hkeeps : ∀ state : SharedBatcher η,
      eventsOf path state.events = eventsOf path shared.events →
      state.Follows path (enqueued ++ []) := by
    intro state hstate
    rw [List.append_nil]
    unfold Follows
    rw [hstate]
    exact hfollows
  cases h with
  | register handler => exact hkeeps _ rfl
  | enqueue now event => exact hfollows.enqueue rfl rfl rfl
  | enter cause free comes =>
    apply hkeeps
    simp [events, Holder.inFlight, free]
  | drain entered =>
    apply hkeeps
    exact eventsOf_drained hapart entered (fun houtcome => hheard (congrArg _ houtcome)) path
  | call holding =>
    apply hkeeps
    simp [events, Holder.inFlight, holding]
  | enterClear free =>
    apply hkeeps
    simp [events, Holder.inFlight, free]
  | clear clearing => exact absurd rfl hclear
  | leave done =>
    apply hkeeps
    rcases done with done | done <;> simp [events, Holder.inFlight, done]

theorem Run.follows (h : Run window trace shared) (hclear : .clear ∉ trace)
    (hheard : .drain .unheard ∉ trace) (path : Path) :
    shared.Follows path (trace.flatMap BatcherAction.enqueued) := by
  induction h with
  | start => exact ⟨.refl _, rfl⟩
  | step run step ih =>
    rw [List.mem_append, List.mem_singleton, not_or] at hclear hheard
    rw [List.flatMap_append, List.flatMap_singleton]
    exact step.follows run.balances.apart (Ne.symm hclear.2) (Ne.symm hheard.2)
      (ih hclear.1 hheard.1)

/-! ## 3. A handler from the start -/

theorem handler_take (batcher : Batcher η) (cause : Batcher.Cause) :
    (batcher.take cause).2.handler = batcher.handler := by
  cases cause with
  | flush => rfl
  | timer generation =>
    show (if _ then _ else _ : Option (Delivery η) × Batcher η).2.handler = _
    split <;> rfl

theorem Step.isSome_handler (h : shared.Step action after)
    (hhandler : shared.batcher.handler.isSome = true) :
    after.batcher.handler.isSome = true := by
  cases h with
  | register handler => rfl
  | @drain cause entered =>
    show (shared.batcher.take cause).2.handler.isSome = true
    rwa [handler_take]
  | _ => exact hhandler

-- Once there is a handler there always is one, so nothing is taken that no one hears of.
theorem Run.heard {handler : η} (h : Run window (.register handler :: trace) shared) :
    shared.batcher.handler.isSome = true ∧
      .drain .unheard ∉ (.register handler :: trace : List (BatcherAction η)) := by
  induction trace using List.reverseRecOn generalizing shared with
  | nil =>
    rw [← List.nil_append [BatcherAction.register handler]] at h
    obtain ⟨before, -, step⟩ := h.of_snoc
    cases step
    exact ⟨rfl, by simp⟩
  | append_singleton trace action ih =>
    rw [← List.cons_append] at h ⊢
    obtain ⟨before, run, step⟩ := h.of_snoc
    obtain ⟨hhandler, hheard⟩ := ih run
    refine ⟨step.isSome_handler hhandler, ?_⟩
    rw [List.mem_append, List.mem_singleton, not_or]
    refine ⟨hheard, fun haction => ?_⟩
    subst haction
    rw [handler_eq_none_of_step step] at hhandler
    exact absurd hhandler nofun

/-- Once nothing is queued and nothing on its way, the delivered events of each path are some of the
enqueued ones, up to the last one. -/
theorem Run.follows_of_settled {handler : η} (h : Run window (.register handler :: trace) shared)
    (hclear : .clear ∉ trace) (hpending : shared.batcher.pending = [])
    (hinFlight : shared.holder.inFlight = []) (path : Path) :
    let delivered := shared.delivered.flatMap fun delivery => delivery.batch.events
    let enqueued := trace.flatMap BatcherAction.enqueued
    (eventsOf path delivered).Sublist (eventsOf path enqueued) ∧
      (eventsOf path delivered).getLast? = (eventsOf path enqueued).getLast? := by
  have hfollows := h.follows (by simpa using hclear) h.heard.2 path
  unfold Follows events at hfollows
  rwa [hpending, hinFlight, List.append_nil, List.append_nil] at hfollows

end SharedBatcher

/-! ## 4. What was seen of a path last -/

namespace Watcher

variable {names : List String} {accepts : Path → Bool} {scanned : PathSet} {steps : List Step}
  {path : Path}

/-- The last notice that meant an event of the path brought this sighting. -/
def LastSighting (watcher : Watcher) (steps : List Step) (path : Path) (sighting : Sighting) :
    Prop :=
  ∃ before native timestamp later event,
    steps = before ++ .notice native sighting timestamp :: later ∧
    ((watcher.after before).notice native sighting timestamp).1 = some event ∧
    event.path.same path = true ∧
    eventsOf path
      ((watcher.after (before ++ [.notice native sighting timestamp])).events later) = []

theorem exists_of_lastKind? {events : List WatchEvent} {kind : EventKind}
    (h : lastKind? path events = some kind) :
    ∃ front event later, events = front ++ event :: later ∧ event.kind = kind ∧
      event.path.same path = true ∧ eventsOf path later = [] := by
  induction events using List.reverseRecOn with
  | nil => exact nomatch h
  | append_singleton events last ih =>
    rw [lastKind?_snoc] at h
    by_cases hlast : last.path.same path = true
    · rw [if_pos hlast] at h
      exact ⟨events, last, [], rfl, Option.some.inj h, hlast, rfl⟩
    · rw [if_neg hlast] at h
      obtain ⟨front, event, later, rfl, hkind, hevent, hlater⟩ := ih h
      refine ⟨front, event, later ++ [last], by simp, hkind, hevent, ?_⟩
      rw [eventsOf_append, hlater, eventsOf_singleton, if_neg hlast, List.nil_append]

theorem lastKind?_of_eventsOf_eq_nil {front later : List WatchEvent} {event : WatchEvent}
    (hevent : event.path.same path = true) (hlater : eventsOf path later = []) :
    lastKind? path (front ++ event :: later) = some event.kind := by
  unfold lastKind?
  rw [List.append_cons, eventsOf_append, hlater, List.append_nil, eventsOf_append,
    eventsOf_singleton, if_pos hevent, List.getLast?_concat]
  rfl

theorem exists_lastSighting {kind : EventKind}
    (h : lastKind? path ((opened names accepts scanned).events steps) = some kind) :
    ∃ sighting, (opened names accepts scanned).LastSighting steps path sighting ∧
      (kind = .unlink ↔ sighting = .missing) := by
  obtain ⟨front, event, later, hevents, hkind, hsame, hlater⟩ := exists_of_lastKind? h
  obtain ⟨before, step, rest, rfl, hfront, hstep⟩ := exists_step_of_events hevents
  have hrest : ((opened names accepts scanned).after (before ++ [step])).events rest = later := by
    rw [List.append_cons before, events_append, events_snoc, hfront, hstep,
      List.append_cons front] at hevents
    exact List.append_cancel_left hevents
  cases step with
  | stop => exact nomatch hstep
  | notice native sighting timestamp =>
    refine ⟨sighting, ⟨before, native, timestamp, rest, event, rfl, hstep, hsame, ?_⟩, ?_⟩
    · rw [hrest]
      exact hlater
    · rw [← hkind]
      exact (reports_after hstep).unlink

theorem LastSighting.exists_lastKind? {sighting : Sighting}
    (h : (opened names accepts scanned).LastSighting steps path sighting) :
    ∃ kind, lastKind? path ((opened names accepts scanned).events steps) = some kind ∧
      (kind = .unlink ↔ sighting = .missing) := by
  obtain ⟨before, native, timestamp, later, event, rfl, hnotice, hsame, hlater⟩ := h
  refine ⟨event.kind, ?_, (reports_after hnotice).unlink⟩
  rw [List.append_cons, events_append, events_snoc]
  show lastKind? path (_ ++ Option.toList (Watcher.notice _ _ _ _).1 ++ _) = _
  rw [hnotice, List.append_assoc]
  exact lastKind?_of_eventsOf_eq_nil hsame hlater

/-- The last event of a path is a removal if the path was missing when it was noticed last. -/
theorem lastKind?_eq_unlink :
    lastKind? path ((opened names accepts scanned).events steps) = some .unlink ↔
      (opened names accepts scanned).LastSighting steps path .missing := by
  constructor
  · intro h
    obtain ⟨sighting, hsighting, hkind⟩ := exists_lastSighting h
    rwa [← hkind.mp rfl]
  · intro h
    obtain ⟨kind, hlast, hkind⟩ := h.exists_lastKind?
    rwa [← hkind.mpr rfl]

/-! ## 5. After things settle -/

/-- What the handlers were given tells how things stand: of each path some of the watcher's events,
in order and up to the last one, which is a removal if the path was missing then. -/
structure Settles (watcher : Watcher) (steps : List Step) (delivered : List WatchEvent) : Prop where
  sublist (path : Path) : (eventsOf path delivered).Sublist (eventsOf path (watcher.events steps))
  getLast? (path : Path) :
    (eventsOf path delivered).getLast? = (eventsOf path (watcher.events steps)).getLast?
  unlink (path : Path) :
    lastKind? path delivered = some .unlink ↔ watcher.LastSighting steps path .missing

/-- In whatever order notices, timers and flushes come, no change is left unreported once nothing is
queued and nothing is on its way. -/
theorem settles_of_run {handler : η} {trace : List (BatcherAction η)} {shared : SharedBatcher η}
    (names : List String) (accepts : Path → Bool) (scanned : PathSet) (steps : List Step)
    (run : SharedBatcher.Run window (.register handler :: trace) shared)
    (fed : trace.flatMap BatcherAction.enqueued = (opened names accepts scanned).events steps)
    (kept : .clear ∉ trace) (queue : shared.batcher.pending = [])
    (done : shared.holder.inFlight = []) :
    (opened names accepts scanned).Settles steps
      (shared.delivered.flatMap fun delivery => delivery.batch.events) := by
  have hfollows := run.follows_of_settled kept queue done
  rw [fed] at hfollows
  refine ⟨fun path => (hfollows path).1, fun path => (hfollows path).2, fun path => ?_⟩
  rw [← lastKind?_eq_unlink]
  unfold lastKind?
  rw [(hfollows path).2]

-- The second file is only ever reported as new, as its two events meet in the queue.
def sampleSteps : List Step :=
  [.notice ⟨"/p/a.ts"⟩ .file 5, .notice ⟨"/p/b.ts"⟩ .missing 6, .notice ⟨"/p/b.ts"⟩ .file 7,
    .notice ⟨"/p/a.ts"⟩ .missing 8]

-- The removal comes after the batch was taken, and before the handler is called.
def sampleSchedule : List (BatcherAction Nat) :=
  [.enqueue 0 ⟨.change, ⟨"a.ts"⟩, 5⟩, .enqueue 10 ⟨.unlink, ⟨"b.ts"⟩, 6⟩,
    .enqueue 20 ⟨.add, ⟨"b.ts"⟩, 7⟩, .enter (.timer 3), .drain .taken,
    .enqueue 130 ⟨.unlink, ⟨"a.ts"⟩, 8⟩, .call, .leave, .enter .flush, .drain .taken, .call]

theorem settles_sample : ∃ shared,
    SharedBatcher.Run 100 (.register 7 :: sampleSchedule) shared ∧
    (opened ["p"] (fun _ => true) ⟨[⟨"a.ts"⟩]⟩).Settles sampleSteps
      (shared.delivered.flatMap fun delivery => delivery.batch.events) ∧
    shared.delivered.length = 2 := by
  have run := (SharedBatcher.Run.start : SharedBatcher.Run 100 [] (.start (η := Nat) 100))
    |>.step (.register _ 7)
    |>.step (.enqueue _ 0 ⟨.change, ⟨"a.ts"⟩, 5⟩)
    |>.step (.enqueue _ 10 ⟨.unlink, ⟨"b.ts"⟩, 6⟩)
    |>.step (.enqueue _ 20 ⟨.add, ⟨"b.ts"⟩, 7⟩)
    |>.step (.enter (.timer 3) rfl (by decide))
    |>.step (.drain rfl)
    |>.step (.enqueue _ 130 ⟨.unlink, ⟨"a.ts"⟩, 8⟩)
    |>.step (.call rfl) |>.step (.leave (.inl rfl))
    |>.step (.enter .flush rfl trivial)
    |>.step (.drain rfl) |>.step (.call rfl)
  exact ⟨_, run, settles_of_run ["p"] (fun _ => true) ⟨[⟨"a.ts"⟩]⟩ sampleSteps run (by decide)
    (by decide) rfl rfl, rfl⟩

end Watcher

end Scrutiny
