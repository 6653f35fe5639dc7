import Mathlib.Data.List.Perm.Subperm
import Scrutiny.Proofs.Watch.Ledger

/-!
A shared batcher neither loses nor repeats an event: after every run it holds what the ledger of the
run says, and an event that never reaches a handler was replaced, cleared, or had no handler.
-/

namespace Scrutiny

variable {η : Type} {window : Nat}

/-! ## 1. Balance -/

/-- What a handler may be given: some events, all of different paths. -/
def EventBatch.IsSound (batch : EventBatch) : Prop :=
  batch.events ≠ [] ∧ Batcher.Apart batch.events

/-- The batcher holds what the ledger says. -/
structure Ledger.Balances (ledger : Ledger) (shared : SharedBatcher η) : Prop where
  calls : shared.delivered.length = ledger.calls
  queued : shared.batcher.pending = ledger.eventsWith .queued
  inFlight : shared.holder.inFlight.Perm (ledger.eventsWith .inFlight)
  delivered : ∀ n, (shared.batch n).Perm (ledger.eventsWith (.delivered n))
  apart : Batcher.Apart shared.batcher.pending
  holding : ∀ delivery, shared.holder = .holding delivery → delivery.batch.IsSound
  batches : ∀ delivery ∈ shared.delivered, delivery.batch.IsSound

namespace Ledger.Balances

variable {ledger : Ledger} {shared : SharedBatcher η}

theorem start : ({} : Ledger).Balances (SharedBatcher.start (η := η) window) where
  calls := rfl
  queued := rfl
  inFlight := .refl _
  delivered _ := .refl _
  apart := .nil
  holding _ h := nomatch h
  batches _ h := nomatch h

theorem eventsWith_inFlight (h : ledger.Balances shared) (hholder : shared.holder.inFlight = []) :
    ledger.eventsWith .inFlight = [] :=
  (hholder ▸ h.inFlight).nil_eq.symm

theorem eventsWith_delivered (h : ledger.Balances shared) {n : Nat} (hn : ledger.calls ≤ n) :
    ledger.eventsWith (.delivered n) = [] := by
  have hbatch : shared.batch n = [] := by
    rw [SharedBatcher.batch, List.getElem?_eq_none (h.calls ▸ hn)]
    rfl
  exact (hbatch ▸ h.delivered n).nil_eq.symm

-- An action that neither takes a batch nor hands one over only has the queue to settle.
theorem note_of_queue (h : ledger.Balances shared) {action : BatcherAction η}
    {after : SharedBatcher η} (hcall : action ≠ .call) (htaken : action ≠ .drain .taken)
    (hdelivered : after.delivered = shared.delivered)
    (hholder : ∀ delivery, after.holder = .holding delivery ↔ shared.holder = .holding delivery)
    (hqueued : after.batcher.pending = (ledger.note action).eventsWith .queued)
    (hapart : Batcher.Apart after.batcher.pending) : (ledger.note action).Balances after where
  calls := by
    rw [hdelivered, h.calls]
    cases action <;> first | rfl | exact absurd rfl hcall
  queued := hqueued
  inFlight := by
    rw [eventsWith_inFlight_note hcall htaken, Holder.inFlight_congr hholder]
    exact h.inFlight
  delivered n := by
    rw [eventsWith_delivered_note hcall, SharedBatcher.batch, hdelivered]
    exact h.delivered n
  apart := hapart
  holding delivery hd := h.holding delivery ((hholder delivery).mp hd)
  batches := hdelivered ▸ h.batches

theorem note_of_idle (h : ledger.Balances shared) {action : BatcherAction η} (hidle : action.IsIdle)
    {after : SharedBatcher η} (hdelivered : after.delivered = shared.delivered)
    (hholder : ∀ delivery, after.holder = .holding delivery ↔ shared.holder = .holding delivery)
    (hpending : after.batcher.pending = shared.batcher.pending) :
    (ledger.note action).Balances after := by
  refine h.note_of_queue ?_ ?_ hdelivered hholder ?_ (hpending ▸ h.apart)
  · rintro rfl
    exact hidle
  · rintro rfl
    exact hidle
  · rw [Ledger.note_of_idle hidle, hpending, h.queued]

theorem note_of_emptied (h : ledger.Balances shared) {action : BatcherAction η}
    {after : SharedBatcher η} (haction : action = .drain .unheard ∨ action = .clear)
    (hdelivered : after.delivered = shared.delivered)
    (hholder : ∀ delivery, after.holder = .holding delivery ↔ shared.holder = .holding delivery)
    (hpending : after.batcher.pending = []) :
    (ledger.note action).Balances after := by
  refine h.note_of_queue ?_ ?_ hdelivered hholder ?_ (hpending ▸ .nil)
  · rcases haction with rfl | rfl <;> exact nofun
  · rcases haction with rfl | rfl <;> exact nofun
  · rw [eventsWith_queued_note_of_emptied (.inr haction), hpending]

theorem note_drain (h : ledger.Balances shared) {cause : Batcher.Cause}
    (entered : shared.holder = .entered cause) :
    (ledger.note (.drain (η := η) (shared.batcher.outcome cause))).Balances
      (shared.drained cause) := by
  have hinFlight : ledger.eventsWith .inFlight = [] := h.eventsWith_inFlight (by rw [entered]; rfl)
  obtain ⟨houtcome, htake⟩ | ⟨houtcome, hempty, hnone, hpending⟩ |
    ⟨houtcome, -, hnone, hpending⟩ | ⟨houtcome, hne, ⟨handler, hsome⟩, hpending⟩ :=
    shared.batcher.take_cases cause
  -- A stale timer leaves the queue as it is, and so does an empty queue.
  · rw [houtcome]
    refine h.note_of_idle (by trivial) rfl ?_ ?_
    · simp [SharedBatcher.drained, htake, entered]
    · simp [SharedBatcher.drained, htake]
  · rw [houtcome]
    refine h.note_of_idle (by trivial) rfl ?_ ?_
    · simp [SharedBatcher.drained, hnone, entered]
    · simp [SharedBatcher.drained, hpending, hempty]
  · rw [houtcome]
    refine h.note_of_emptied (.inl rfl) rfl ?_ hpending
    simp [SharedBatcher.drained, hnone, entered]
  -- The whole queue becomes the batch on its way, in another order.
  · rw [houtcome]
    have hperm := shared.batcher.batch_perm
    have hholder : (shared.drained cause).holder = .holding ⟨handler, shared.batcher.batch⟩ := by
      simp [SharedBatcher.drained, hsome]
    refine ⟨h.calls, ?_, ?_, fun n => ?_, ?_, ?_, h.batches⟩
    · rw [eventsWith_queued_note_of_emptied (.inl rfl)]
      exact hpending
    · rw [hholder, eventsWith_inFlight_note_taken hinFlight, ← h.queued]
      exact hperm
    · have hcall : (.drain .taken : BatcherAction η) ≠ .call := nofun
      rw [eventsWith_delivered_note hcall]
      exact h.delivered n
    · exact hpending ▸ .nil
    · intro delivery hd
      rw [hholder] at hd
      obtain rfl := Holder.holding.inj hd
      exact ⟨fun hnil => hne (hnil ▸ hperm).nil_eq.symm, h.apart.perm hperm⟩

theorem note_call (h : ledger.Balances shared) {delivery : Delivery η}
    (holding : shared.holder = .holding delivery) :
    (ledger.note (.call (η := η))).Balances
      { shared with holder := .calling, delivered := shared.delivered ++ [delivery] } where
  calls := by
    rw [List.length_append, h.calls]
    rfl
  queued := h.queued.trans (eventsWith_queued_note_call ledger).symm
  inFlight := by
    rw [eventsWith_inFlight_note_call]
    exact .refl _
  delivered n := by
    rw [SharedBatcher.batch]
    obtain hn | rfl | hn := Nat.lt_trichotomy n ledger.calls
    · rw [eventsWith_delivered_note_call_of_ne (Nat.ne_of_lt hn),
        List.getElem?_append_left (h.calls ▸ hn)]
      exact h.delivered n
    · rw [eventsWith_delivered_note_call (h.eventsWith_delivered (Nat.le_refl _)), ← h.calls,
        List.getElem?_concat_length]
      have hperm := h.inFlight
      rw [holding] at hperm
      exact hperm
    · have hlength : (shared.delivered ++ [delivery]).length ≤ n := by
        rw [List.length_append, h.calls]
        exact hn
      rw [eventsWith_delivered_note_call_of_ne (Nat.ne_of_gt hn),
        h.eventsWith_delivered (Nat.le_of_lt hn), List.getElem?_eq_none hlength]
      exact .refl _
  apart := h.apart
  holding _ hd := nomatch hd
  batches := by
    rw [List.forall_mem_append, List.forall_mem_singleton]
    exact ⟨h.batches, h.holding delivery holding⟩

/-- One step of any thread keeps the balance. -/
theorem step (h : ledger.Balances shared) {action : BatcherAction η} {after : SharedBatcher η}
    (hstep : shared.Step action after) : (ledger.note action).Balances after := by
  cases hstep with
  | register handler =>
    exact h.note_of_idle (by trivial) rfl (fun _ => .rfl) rfl
  | enqueue now event =>
    refine h.note_of_queue nofun nofun rfl (fun _ => .rfl) ?_ (h.apart.put event)
    rw [eventsWith_queued_note_enqueue, ← h.queued]
    rfl
  | enter cause free comes =>
    exact h.note_of_idle (by trivial) rfl (by simp [free]) rfl
  | drain entered => exact h.note_drain entered
  | call holding => exact h.note_call holding
  | enterClear free =>
    exact h.note_of_idle (by trivial) rfl (by simp [free]) rfl
  | clear clearing => exact h.note_of_emptied (.inr rfl) rfl (by simp [clearing]) rfl
  | leave done =>
    refine h.note_of_idle (by trivial) rfl ?_ rfl
    rcases done with done | done <;> simp [done]

end Ledger.Balances

namespace SharedBatcher

variable {trace : List (BatcherAction η)} {shared : SharedBatcher η}

theorem Run.balances (h : Run window trace shared) : (Ledger.of trace).Balances shared := by
  induction h with
  | start => exact .start
  | step _ step ih =>
    rw [Ledger.of_snoc]
    exact ih.step step

/-! ## 2. How an event came to its fate -/

/-- A run takes an action, after the given ones and in the given state. -/
structure Takes (window : Nat) (trace before : List (BatcherAction η)) (shared : SharedBatcher η)
    (action : BatcherAction η) : Prop where
  splits : ∃ later, trace = before ++ action :: later
  run : Run window before shared
  step : ∃ after, shared.Step action after

theorem Takes.snoc {before : List (BatcherAction η)} {action : BatcherAction η}
    (h : Takes window trace before shared action) (last : BatcherAction η) :
    Takes window (trace ++ [last]) before shared action := by
  obtain ⟨later, rfl⟩ := h.splits
  exact ⟨⟨later ++ [last], by simp⟩, h.run, h.step⟩

-- Some action brought an event to its fate, if it is not queued any more.
theorem Run.exists_takes (h : Run window trace shared) {i : Nat} {entry : LedgerEntry}
    (hentry : (Ledger.of trace).entries[i]? = some entry) (hfate : entry.fate ≠ .queued) :
    ∃ before state action old, Takes window trace before state action ∧
      (Ledger.of before).entries[i]? = some old ∧ old.event = entry.event ∧
      old.fate ≠ entry.fate ∧ (Ledger.of before).fateAfter action old = entry.fate := by
  -- By induction on the run: the last action did it, or one before.
  induction h generalizing entry with
  | start => simp [Ledger.of] at hentry
  | @step trace shared after action run step ih =>
    rw [Ledger.of_snoc] at hentry
    obtain ⟨old, hold, rfl⟩ | hqueued := Ledger.getElem?_of_note hentry
    · by_cases hsame : (Ledger.of trace).fateAfter action old = old.fate
      · rw [hsame] at hfate ⊢
        obtain ⟨before, state, taken, hrest⟩ := ih hold hfate
        obtain ⟨earlier, htakes, hrest⟩ := hrest
        exact ⟨before, state, taken, earlier, htakes.snoc action, hrest⟩
      · exact ⟨trace, shared, action, old, ⟨⟨[], rfl⟩, run, _, step⟩, hold, rfl,
          fun h => hsame h.symm, rfl⟩
    · exact absurd hqueued hfate

theorem Run.exists_takes_enqueue (h : Run window trace shared) {i j : Nat} {event : WatchEvent}
    (hentry : (Ledger.of trace).entries[i]? = some ⟨event, .replaced j⟩) :
    ∃ before state now later, Takes window trace before state (.enqueue now later) ∧
      (Ledger.of before).entries[i]? = some { event } ∧
      (Ledger.of before).entries.length = j ∧ event.path.same later.path = true := by
  obtain ⟨before, state, action, old, htakes, hold, rfl, hne, hafter⟩ :=
    h.exists_takes hentry nofun
  obtain hfate | ⟨hfate, rfl, now, later, rfl, hsame⟩ := Ledger.fateAfter_eq_replaced.mp hafter
  · exact absurd hfate hne
  · exact ⟨before, state, now, later, htakes, hfate ▸ hold, rfl, hsame⟩

theorem Run.exists_takes_clear (h : Run window trace shared) {i : Nat} {event : WatchEvent}
    (hentry : (Ledger.of trace).entries[i]? = some ⟨event, .cleared⟩) :
    ∃ before state, Takes window trace before state .clear ∧
      (Ledger.of before).entries[i]? = some { event } := by
  obtain ⟨before, state, action, old, htakes, hold, rfl, hne, hafter⟩ :=
    h.exists_takes hentry nofun
  obtain hfate | ⟨hfate, rfl⟩ := Ledger.fateAfter_eq_cleared.mp hafter
  · exact absurd hfate hne
  · exact ⟨before, state, htakes, hfate ▸ hold⟩

theorem handler_eq_none_of_step {after : SharedBatcher η}
    (h : shared.Step (.drain .unheard) after) : shared.batcher.handler = none := by
  generalize haction : BatcherAction.drain Batcher.Outcome.unheard = action at h
  cases h with
  | @drain cause entered =>
    have houtcome : shared.batcher.outcome cause = .unheard :=
      (BatcherAction.drain.inj haction).symm
    obtain ⟨h, -⟩ | ⟨h, -⟩ | ⟨-, hnone, -⟩ | ⟨h, -⟩ := shared.batcher.take_cases cause
    · exact nomatch h.symm.trans houtcome
    · exact nomatch h.symm.trans houtcome
    · exact hnone
    · exact nomatch h.symm.trans houtcome
  | _ => cases haction

theorem Run.exists_takes_unheard (h : Run window trace shared) {i : Nat} {event : WatchEvent}
    (hentry : (Ledger.of trace).entries[i]? = some ⟨event, .unheard⟩) :
    ∃ before state, Takes window trace before state (.drain .unheard) ∧
      state.batcher.handler = none ∧ (Ledger.of before).entries[i]? = some { event } := by
  obtain ⟨before, state, action, old, htakes, hold, rfl, hne, hafter⟩ :=
    h.exists_takes hentry nofun
  obtain hfate | ⟨hfate, rfl⟩ := Ledger.fateAfter_eq_unheard.mp hafter
  · exact absurd hfate hne
  · obtain ⟨after, step⟩ := htakes.step
    exact ⟨before, state, htakes, handler_eq_none_of_step step, hfate ▸ hold⟩

/-! ## 3. After a clear -/

/-- When a clear is done, nothing is queued and nothing is on its way. -/
theorem Run.eventsWith_of_clear (h : Run window (trace ++ [.clear]) shared) :
    (Ledger.of (trace ++ [.clear])).eventsWith .queued = [] ∧
      (Ledger.of (trace ++ [.clear])).eventsWith .inFlight = [] := by
  have hbalances := h.balances
  obtain ⟨state, -, step⟩ := h.of_snoc
  cases step
  exact ⟨hbalances.queued.symm, hbalances.eventsWith_inFlight rfl⟩

/-- An event that was enqueued before a clear and is ever delivered was so before the clear. -/
theorem Run.lt_calls_of_clear {before later : List (BatcherAction η)}
    (h : Run window (before ++ .clear :: later) shared) {i n : Nat} {event : WatchEvent}
    (hi : i < (Ledger.of before).entries.length)
    (hentry : (Ledger.of (before ++ .clear :: later)).entries[i]? =
      some ⟨event, .delivered n⟩) : n < (Ledger.of before).calls := by
  rw [List.append_cons] at h hentry
  obtain ⟨cleared, run⟩ := h.of_append
  obtain ⟨hqueued, hinFlight⟩ := run.eventsWith_of_clear
  -- So the event has come to its fate by then, and keeps it.
  have hentry' : (Ledger.of (before ++ [.clear])).entries[i]? = some ⟨event, .delivered n⟩ := by
    have hnew := Ledger.getElem?_note (List.getElem?_eq_getElem hi) (.clear : BatcherAction η)
    rw [← Ledger.of_snoc] at hnew
    have hmem := List.mem_of_getElem? hnew
    have hlater := Ledger.getElem?_of_append later hnew
      (Ledger.eventsWith_eq_nil.mp hqueued _ hmem) (Ledger.eventsWith_eq_nil.mp hinFlight _ hmem)
    rw [hnew, ← hlater, hentry]
  by_contra hcalls
  have hcleared : (Ledger.of (before ++ [.clear])).calls ≤ n := by
    rw [Ledger.of_snoc]
    exact Nat.not_lt.mp hcalls
  exact Ledger.eventsWith_eq_nil.mp (run.balances.eventsWith_delivered hcleared) _
    (List.mem_of_getElem? hentry') rfl

/-! ## 4. All events together -/

theorem drained_events_subperm {cause : Batcher.Cause} (entered : shared.holder = .entered cause) :
    (shared.drained cause).events.Subperm shared.events := by
  have hinFlight : shared.holder.inFlight = [] := by rw [entered]; rfl
  rw [events, events, hinFlight]
  refine (List.subperm_append_left _).mpr ?_
  obtain ⟨-, htake⟩ | ⟨-, -, hnone, hpending⟩ | ⟨-, -, hnone, hpending⟩ |
    ⟨-, -, ⟨handler, hsome⟩, hpending⟩ := shared.batcher.take_cases cause
  · simp [drained, htake, Holder.inFlight, List.Subperm.refl]
  · simp [drained, hnone, hpending, Holder.inFlight]
  · simp [drained, hnone, hpending, Holder.inFlight]
  · have hperm := shared.batcher.batch_perm
    simpa [drained, hsome, hpending, Holder.inFlight] using hperm.subperm

/-- A step adds no event but the one that it enqueues. -/
theorem Step.events_subperm {action : BatcherAction η} {after : SharedBatcher η}
    (h : shared.Step action after) :
    after.events.Subperm (shared.events ++ action.enqueued) := by
  cases h with
  | enqueue now event =>
    have hput : (Batcher.put shared.batcher.pending event).Sublist
        (shared.batcher.pending ++ [event]) := List.filter_sublist.append (.refl _)
    rw [events, events, List.append_assoc, List.append_assoc]
    exact (List.Sublist.append (.refl _) (List.Sublist.append (.refl _) hput)).subperm
  | drain entered =>
    simp only [BatcherAction.enqueued, List.append_nil]
    exact drained_events_subperm entered
  | register handler => exact (List.Perm.of_eq (List.append_nil shared.events).symm).subperm
  | enter cause free comes =>
    simp [events, Holder.inFlight, BatcherAction.enqueued, free, List.Subperm.refl]
  | call holding =>
    simp [events, Holder.inFlight, BatcherAction.enqueued, holding, List.Subperm.refl]
  | enterClear free =>
    simp [events, Holder.inFlight, BatcherAction.enqueued, free, List.Subperm.refl]
  | clear clearing =>
    have hsub : shared.batcher.clear.pending.Sublist shared.batcher.pending := List.nil_sublist _
    simpa [events, Holder.inFlight, BatcherAction.enqueued, clearing] using
      (List.subperm_append_left _).mpr hsub.subperm
  | leave done =>
    rcases done with done | done <;>
      simp [events, Holder.inFlight, BatcherAction.enqueued, done, List.Subperm.refl]

theorem Run.events_subperm (h : Run window trace shared) :
    shared.events.Subperm (trace.flatMap BatcherAction.enqueued) := by
  induction h with
  | start => exact .refl _
  | step _ step ih =>
    rw [List.flatMap_append, List.flatMap_singleton]
    exact step.events_subperm.trans ((List.subperm_append_right _).mpr ih)

/-! ## 5. The account of a run -/

/-- What is known of every event of a run. -/
structure Accounts (window : Nat) (trace : List (BatcherAction η)) (shared : SharedBatcher η) :
    Prop where
  /-- Every enqueued event has an entry in the ledger, and so just one fate. -/
  entries : (Ledger.of trace).entries.map LedgerEntry.event =
    trace.flatMap BatcherAction.enqueued
  /-- Queue, batch on its way and delivered batches hold the events of those fates. -/
  balances : (Ledger.of trace).Balances shared
  /-- No event is there more often than it was enqueued. -/
  events : shared.events.Subperm (trace.flatMap BatcherAction.enqueued)
  /-- A replaced event was queued when an event of the same path was enqueued. -/
  replaced (i j : Nat) (event : WatchEvent) :
    (Ledger.of trace).entries[i]? = some ⟨event, .replaced j⟩ →
      ∃ before state now later, Takes window trace before state (.enqueue now later) ∧
        (Ledger.of before).entries[i]? = some { event } ∧
        (Ledger.of before).entries.length = j ∧ event.path.same later.path = true
  cleared (i : Nat) (event : WatchEvent) :
    (Ledger.of trace).entries[i]? = some ⟨event, .cleared⟩ →
      ∃ before state, Takes window trace before state .clear ∧
        (Ledger.of before).entries[i]? = some { event }
  unheard (i : Nat) (event : WatchEvent) :
    (Ledger.of trace).entries[i]? = some ⟨event, .unheard⟩ →
      ∃ before state, Takes window trace before state (.drain .unheard) ∧
        state.batcher.handler = none ∧ (Ledger.of before).entries[i]? = some { event }
  /-- What was enqueued before a clear is delivered before it, or never. -/
  afterClear (before later : List (BatcherAction η)) : trace = before ++ .clear :: later →
    ∀ i n event, i < (Ledger.of before).entries.length →
      (Ledger.of trace).entries[i]? = some ⟨event, .delivered n⟩ → n < (Ledger.of before).calls

/-- In whatever order threads enqueue, register, flush, clear and let timers wake, no event is lost
or delivered twice. -/
theorem accounts_of_run (h : Run window trace shared) : Accounts window trace shared where
  entries := Ledger.map_event_of trace
  balances := h.balances
  events := h.events_subperm
  replaced _ _ _ := h.exists_takes_enqueue
  cleared _ _ := h.exists_takes_clear
  unheard _ _ := h.exists_takes_unheard
  afterClear before later htrace := by
    subst htrace
    exact fun i n event hi hentry => h.lt_calls_of_clear hi hentry

-- A timer that comes too late, an event that comes before the handler is called, one that the
-- handler enqueues itself, and a clear.
def sampleTrace : List (BatcherAction Nat) :=
  [.register 7, .enqueue 0 ⟨.add, ⟨"a.ts"⟩, 1⟩, .enqueue 10 ⟨.change, ⟨"a.ts"⟩, 2⟩,
    .enter (.timer 1), .drain .stale, .leave,
    .enter (.timer 2), .drain .taken, .enqueue 120 ⟨.add, ⟨"b.ts"⟩, 3⟩, .register 8, .call,
    .enqueue 130 ⟨.unlink, ⟨"a.ts"⟩, 4⟩, .leave,
    .enterClear, .clear, .leave,
    .enter (.timer 4), .drain .stale, .leave]

theorem accounts_sampleTrace : ∃ shared, Run 100 sampleTrace shared ∧
    Accounts 100 sampleTrace shared ∧
    (Ledger.of sampleTrace).entries.map LedgerEntry.fate =
      [.replaced 1, .delivered 0, .cleared, .cleared] := by
  have run := (Run.start : Run 100 [] (start (η := Nat) 100)).step (.register _ 7)
    |>.step (.enqueue _ 0 ⟨.add, ⟨"a.ts"⟩, 1⟩)
    |>.step (.enqueue _ 10 ⟨.change, ⟨"a.ts"⟩, 2⟩)
    |>.step (.enter (.timer 1) rfl (by decide))
    |>.step (.drain rfl) |>.step (.leave (.inr rfl))
    |>.step (.enter (.timer 2) rfl (by decide))
    |>.step (.drain rfl)
    |>.step (.enqueue _ 120 ⟨.add, ⟨"b.ts"⟩, 3⟩) |>.step (.register _ 8) |>.step (.call rfl)
    |>.step (.enqueue _ 130 ⟨.unlink, ⟨"a.ts"⟩, 4⟩) |>.step (.leave (.inl rfl))
    |>.step (.enterClear rfl) |>.step (.clear rfl) |>.step (.leave (.inr rfl))
    |>.step (.enter (.timer 4) rfl (by decide))
    |>.step (.drain rfl) |>.step (.leave (.inr rfl))
  exact ⟨_, run, accounts_of_run run, by decide⟩

end SharedBatcher

end Scrutiny
