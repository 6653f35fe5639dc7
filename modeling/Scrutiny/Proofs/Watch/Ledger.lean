import Scrutiny.Proofs.Watch.Interleaving

/-!
What becomes of the events that are enqueued.  A ledger is kept from the actions alone, with one
entry for each enqueue.  In whatever order the threads act, the queue, the batch that is on its way
and the delivered batches hold just the events that the ledger says.
-/

namespace Scrutiny

variable {η : Type}

/-! ## 1. The ledger -/

/-- Where an enqueued event is, or where it ended. -/
inductive Fate
  | queued
  /-- Taken from the queue for a handler that is not called yet. -/
  | inFlight
  /-- Handed over, in the batch of that number. -/
  | delivered (batch : Nat)
  /-- Replaced in the queue, by the enqueue of that number. -/
  | replaced (successor : Nat)
  | cleared
  /-- Taken from the queue when there was no handler. -/
  | unheard
  deriving DecidableEq, Repr

structure LedgerEntry where
  event : WatchEvent
  fate : Fate := .queued
  deriving DecidableEq, Repr

/-- The enqueued events in order, and how often a handler was called. -/
structure Ledger where
  entries : List LedgerEntry := []
  calls : Nat := 0
  deriving DecidableEq, Repr

/-- The events that an action enqueues. -/
def BatcherAction.enqueued : BatcherAction η → List WatchEvent
  | .enqueue _ event => [event]
  | _ => []

/-- How often an action calls a handler. -/
def BatcherAction.calls : BatcherAction η → Nat
  | .call => 1
  | _ => 0

/-- The action moves no event. -/
def BatcherAction.IsIdle : BatcherAction η → Prop
  | .register _ | .enter _ | .drain .stale | .drain .empty | .enterClear | .leave => True
  | .enqueue _ _ | .drain .unheard | .drain .taken | .call | .clear => False

namespace Ledger

/-- What an action makes of an event that was enqueued before. -/
def fateAfter (ledger : Ledger) (action : BatcherAction η) (entry : LedgerEntry) : Fate :=
  match entry.fate, action with
  | .queued, .enqueue _ event =>
      if entry.event.path.same event.path then .replaced ledger.entries.length else .queued
  | .queued, .drain .taken => .inFlight
  | .queued, .drain .unheard => .unheard
  | .queued, .clear => .cleared
  | .inFlight, .call => .delivered ledger.calls
  | fate, _ => fate

def note (ledger : Ledger) (action : BatcherAction η) : Ledger where
  entries :=
    (ledger.entries.map fun entry => { entry with fate := ledger.fateAfter action entry }) ++
      action.enqueued.map fun event => { event }
  calls := ledger.calls + action.calls

/-- The ledger of a trace. -/
def of (trace : List (BatcherAction η)) : Ledger :=
  trace.foldl note {}

/-- The events of one fate. -/
def eventsWith (ledger : Ledger) (fate : Fate) : List WatchEvent :=
  (ledger.entries.filter fun entry => entry.fate = fate).map LedgerEntry.event

theorem of_snoc (trace : List (BatcherAction η)) (action : BatcherAction η) :
    of (trace ++ [action]) = (of trace).note action :=
  List.foldl_append

theorem map_event_note (ledger : Ledger) (action : BatcherAction η) :
    (ledger.note action).entries.map LedgerEntry.event =
      ledger.entries.map LedgerEntry.event ++ action.enqueued := by
  simp [note, Function.comp_def]

theorem map_event_of (trace : List (BatcherAction η)) :
    (of trace).entries.map LedgerEntry.event = trace.flatMap BatcherAction.enqueued := by
  induction trace using List.reverseRecOn with
  | nil => rfl
  | append_singleton trace action ih =>
    rw [of_snoc, map_event_note, ih, List.flatMap_append, List.flatMap_singleton]

theorem getElem?_note {ledger : Ledger} {i : Nat} {entry : LedgerEntry}
    (h : ledger.entries[i]? = some entry) (action : BatcherAction η) :
    (ledger.note action).entries[i]? =
      some { entry with fate := ledger.fateAfter action entry } := by
  have hi : i < ledger.entries.length := (List.getElem?_eq_some_iff.mp h).1
  rw [note, List.getElem?_append_left (by simpa using hi), List.getElem?_map, h]
  rfl

-- An entry after an action was there before it, or is a new one.
theorem getElem?_of_note {ledger : Ledger} {action : BatcherAction η} {i : Nat}
    {entry : LedgerEntry} (h : (ledger.note action).entries[i]? = some entry) :
    (∃ old, ledger.entries[i]? = some old ∧
      entry = { old with fate := ledger.fateAfter action old }) ∨ entry.fate = .queued := by
  by_cases hi : i < ledger.entries.length
  · have hold := List.getElem?_eq_getElem hi
    rw [getElem?_note hold, Option.some.injEq] at h
    exact .inl ⟨_, hold, h.symm⟩
  · rw [note, List.getElem?_append_right (by simpa using hi)] at h
    obtain ⟨event, -, rfl⟩ := List.mem_map.mp (List.mem_of_getElem? h)
    exact .inr rfl

/-! ## 2. How an event comes to a fate -/

section

variable {ledger : Ledger} {action : BatcherAction η} {entry : LedgerEntry}

/-- What an action makes of an entry.  It moves the entry on, or leaves its fate as it is. -/
theorem fateAfter_cases (ledger : Ledger) (action : BatcherAction η) (entry : LedgerEntry) :
    let after := ledger.fateAfter action entry
    (entry.fate = .queued ∧ after = .replaced ledger.entries.length ∧
      ∃ now event, action = .enqueue now event ∧ entry.event.path.same event.path = true) ∨
    (entry.fate = .queued ∧ action = .drain .taken ∧ after = .inFlight) ∨
    (entry.fate = .queued ∧ action = .drain .unheard ∧ after = .unheard) ∨
    (entry.fate = .queued ∧ action = .clear ∧ after = .cleared) ∨
    (entry.fate = .inFlight ∧ action = .call ∧ after = .delivered ledger.calls) ∨
    (after = entry.fate ∧ (entry.fate = .inFlight → action ≠ .call) ∧
      (entry.fate = .queued → action ≠ .drain .taken ∧ action ≠ .drain .unheard ∧
        action ≠ .clear ∧
        ∀ now event, action = .enqueue now event →
          entry.event.path.same event.path = false)) := by
  fun_cases fateAfter <;> grind

theorem fateAfter_eq_queued : ledger.fateAfter action entry = .queued ↔
    entry.fate = .queued ∧ action ≠ .drain .taken ∧ action ≠ .drain .unheard ∧
      action ≠ .clear ∧
      ∀ now event, action = .enqueue now event → entry.event.path.same event.path = false := by
  have hcases := ledger.fateAfter_cases action entry
  grind

theorem fateAfter_eq_inFlight : ledger.fateAfter action entry = .inFlight ↔
    (entry.fate = .inFlight ∧ action ≠ .call) ∨
      (entry.fate = .queued ∧ action = .drain .taken) := by
  have hcases := ledger.fateAfter_cases action entry
  grind

theorem fateAfter_eq_delivered {n : Nat} : ledger.fateAfter action entry = .delivered n ↔
    entry.fate = .delivered n ∨
      (entry.fate = .inFlight ∧ action = .call ∧ n = ledger.calls) := by
  have hcases := ledger.fateAfter_cases action entry
  grind

theorem fateAfter_eq_replaced {j : Nat} : ledger.fateAfter action entry = .replaced j ↔
    entry.fate = .replaced j ∨
      (entry.fate = .queued ∧ j = ledger.entries.length ∧
        ∃ now event, action = .enqueue now event ∧
          entry.event.path.same event.path = true) := by
  have hcases := ledger.fateAfter_cases action entry
  grind

theorem fateAfter_eq_cleared : ledger.fateAfter action entry = .cleared ↔
    entry.fate = .cleared ∨ (entry.fate = .queued ∧ action = .clear) := by
  have hcases := ledger.fateAfter_cases action entry
  grind

theorem fateAfter_eq_unheard : ledger.fateAfter action entry = .unheard ↔
    entry.fate = .unheard ∨ (entry.fate = .queued ∧ action = .drain .unheard) := by
  have hcases := ledger.fateAfter_cases action entry
  grind

/-- What is delivered, replaced, cleared or unheard stays so. -/
theorem fateAfter_eq_fate (hqueued : entry.fate ≠ .queued) (hinFlight : entry.fate ≠ .inFlight) :
    ledger.fateAfter action entry = entry.fate := by
  have hcases := ledger.fateAfter_cases action entry
  grind

theorem getElem?_of_append {before : List (BatcherAction η)} (later : List (BatcherAction η))
    {i : Nat} (h : (of before).entries[i]? = some entry) (hqueued : entry.fate ≠ .queued)
    (hinFlight : entry.fate ≠ .inFlight) : (of (before ++ later)).entries[i]? = some entry := by
  induction later using List.reverseRecOn with
  | nil => rwa [List.append_nil]
  | append_singleton later action ih =>
    rw [← List.append_assoc, of_snoc, getElem?_note ih, fateAfter_eq_fate hqueued hinFlight]

theorem note_of_idle (h : action.IsIdle) : ledger.note action = ledger := by
  have hfate : ∀ entry, ledger.fateAfter action entry = entry.fate := by
    intro entry
    fun_cases fateAfter <;> first | rfl | exact h.elim
  have hnew : action.enqueued = [] := by
    cases action <;> first | rfl | exact h.elim
  have hcalls : action.calls = 0 := by
    cases action <;> first | rfl | exact h.elim
  simp [note, hfate, hnew, hcalls]

end

/-! ## 3. The events of one fate after an action -/

theorem eventsWith_eq_nil {ledger : Ledger} {fate : Fate} :
    ledger.eventsWith fate = [] ↔ ∀ entry ∈ ledger.entries, entry.fate ≠ fate := by
  simp [eventsWith]

theorem eventsWith_note (ledger : Ledger) (action : BatcherAction η) (fate : Fate) :
    (ledger.note action).eventsWith fate =
      (ledger.entries.filter fun entry => ledger.fateAfter action entry = fate).map
        LedgerEntry.event ++ if fate = .queued then action.enqueued else [] := by
  rw [eventsWith, note, List.filter_append, List.map_append, List.filter_map, List.map_map]
  refine congrArg₂ _ rfl ?_
  by_cases hfate : fate = .queued
  · subst hfate
    rw [if_pos rfl, List.filter_eq_self.mpr (by simp), List.map_map]
    exact List.map_id _
  · rw [if_neg hfate, List.filter_eq_nil_iff.mpr (by simp [Ne.symm hfate]), List.map_nil]

-- The events of a fate are those that were of another one before, or of the same one.
theorem eventsWith_note_of_iff {ledger : Ledger} {action : BatcherAction η} {fate source : Fate}
    (hnew : fate ≠ .queued)
    (hsource : ∀ entry ∈ ledger.entries,
      ledger.fateAfter action entry = fate ↔ entry.fate = source) :
    (ledger.note action).eventsWith fate = ledger.eventsWith source := by
  rw [eventsWith_note, if_neg hnew, List.append_nil, eventsWith]
  refine congrArg _ (List.filter_congr fun entry hentry => ?_)
  exact decide_eq_decide.mpr (hsource entry hentry)

theorem eventsWith_queued_note_enqueue (ledger : Ledger) (now : Nat) (event : WatchEvent) :
    (ledger.note (.enqueue (η := η) now event)).eventsWith .queued =
      Batcher.put (ledger.eventsWith .queued) event := by
  rw [eventsWith_note, if_pos rfl, Batcher.put, eventsWith, List.filter_map, List.filter_filter]
  refine congrArg (List.map _ · ++ _) (List.filter_congr fun entry _ => ?_)
  rw [Bool.eq_iff_iff]
  simp [fateAfter_eq_queued, and_comm]

theorem eventsWith_queued_note_of_emptied {action : BatcherAction η}
    (h : action = .drain .taken ∨ action = .drain .unheard ∨ action = .clear) (ledger : Ledger) :
    (ledger.note action).eventsWith .queued = [] := by
  have hnew : action.enqueued = [] := by
    rcases h with rfl | rfl | rfl <;> rfl
  rw [eventsWith_note, if_pos rfl, hnew, List.append_nil, List.map_eq_nil_iff,
    List.filter_eq_nil_iff]
  intro entry _
  rw [decide_eq_true_iff, fateAfter_eq_queued]
  tauto

theorem eventsWith_queued_note_call (ledger : Ledger) :
    (ledger.note (.call (η := η))).eventsWith .queued = ledger.eventsWith .queued := by
  have hnew : (.call : BatcherAction η).enqueued = [] := rfl
  rw [eventsWith_note, if_pos rfl, hnew, List.append_nil, eventsWith]
  exact congrArg _ (List.filter_congr fun entry _ => by simp [fateAfter_eq_queued])

theorem eventsWith_delivered_note {action : BatcherAction η} (hcall : action ≠ .call)
    (ledger : Ledger) (n : Nat) :
    (ledger.note action).eventsWith (.delivered n) = ledger.eventsWith (.delivered n) :=
  eventsWith_note_of_iff nofun fun entry _ => by simp [fateAfter_eq_delivered, hcall]

theorem eventsWith_inFlight_note {action : BatcherAction η} (hcall : action ≠ .call)
    (htaken : action ≠ .drain .taken) (ledger : Ledger) :
    (ledger.note action).eventsWith .inFlight = ledger.eventsWith .inFlight :=
  eventsWith_note_of_iff nofun fun entry _ => by simp [fateAfter_eq_inFlight, hcall, htaken]

-- What is taken is all that was queued.
theorem eventsWith_inFlight_note_taken {ledger : Ledger} (h : ledger.eventsWith .inFlight = []) :
    (ledger.note (.drain (η := η) .taken)).eventsWith .inFlight = ledger.eventsWith .queued :=
  eventsWith_note_of_iff nofun fun entry hentry => by
    simp [fateAfter_eq_inFlight, eventsWith_eq_nil.mp h entry hentry]

theorem eventsWith_inFlight_note_call (ledger : Ledger) :
    (ledger.note (.call (η := η))).eventsWith .inFlight = [] := by
  rw [eventsWith_note, if_neg nofun, List.append_nil, List.map_eq_nil_iff,
    List.filter_eq_nil_iff]
  intro entry _
  simp [fateAfter_eq_inFlight]

-- What is handed over is all that was taken.
theorem eventsWith_delivered_note_call {ledger : Ledger}
    (h : ledger.eventsWith (.delivered ledger.calls) = []) :
    (ledger.note (.call (η := η))).eventsWith (.delivered ledger.calls) =
      ledger.eventsWith .inFlight :=
  eventsWith_note_of_iff nofun fun entry hentry => by
    simp [fateAfter_eq_delivered, eventsWith_eq_nil.mp h entry hentry]

theorem eventsWith_delivered_note_call_of_ne {ledger : Ledger} {n : Nat} (hn : n ≠ ledger.calls) :
    (ledger.note (.call (η := η))).eventsWith (.delivered n) = ledger.eventsWith (.delivered n) :=
  eventsWith_note_of_iff nofun fun entry _ => by simp [fateAfter_eq_delivered, hn]

end Ledger

end Scrutiny
