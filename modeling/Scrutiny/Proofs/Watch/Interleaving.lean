import Mathlib.Data.List.Induction
import Scrutiny.Watch.Batcher

/-!
A batcher that several threads share, under two locks.  Whoever reads or changes its state holds
the state lock, so such a section is one step here.  The delivery lock is held over several
steps: by a delivery, from before it empties the queue until the handler has returned, and by a
clear.  Registering a handler and enqueuing an event take the state lock only, so they may happen
at any time; the handler itself may enqueue.

A timer that was stopped may have woken already and be on its way to the delivery lock, so every
timer ever started may still come.
-/

namespace Scrutiny

namespace Batcher

variable {η : Type}

/-! ## 1. Taking the queued events -/

/-- What makes a delivery begin. -/
inductive Cause
  | flush
  | timer (generation : Nat)
  deriving DecidableEq, Repr

def take (batcher : Batcher η) : Cause → Option (Delivery η) × Batcher η
  | .flush => batcher.flush
  | .timer generation => batcher.wake generation

/-- What a delivery finds when it looks at the state. -/
inductive Outcome
  /-- The timer is of another generation. -/
  | stale
  | empty
  /-- There are events, and no handler to take them. -/
  | unheard
  | taken
  deriving DecidableEq, Repr

def isStale (batcher : Batcher η) : Cause → Bool
  | .flush => false
  | .timer generation => generation ≠ batcher.generation

def outcome (batcher : Batcher η) (cause : Cause) : Outcome :=
  if batcher.isStale cause then .stale
  else if batcher.pending.isEmpty then .empty
  else if batcher.handler.isNone then .unheard
  else .taken

def batch (batcher : Batcher η) : EventBatch :=
  ⟨batcher.pending.mergeSort WatchEvent.le⟩

theorem batch_perm (batcher : Batcher η) : batcher.batch.events.Perm batcher.pending :=
  List.mergeSort_perm _ _

theorem drain_delivery (batcher : Batcher η) :
    batcher.drain.1 = if batcher.pending.isEmpty then none
      else batcher.handler.map fun handler => ⟨handler, batcher.batch⟩ := rfl

-- Whatever stops or forgets a timer, the queue and the handler stay.
theorem take_of_not_isStale {batcher : Batcher η} {cause : Cause}
    (h : batcher.isStale cause = false) :
    (batcher.take cause).1 = batcher.drain.1 ∧ (batcher.take cause).2.pending = [] := by
  cases cause with
  | flush => exact ⟨rfl, rfl⟩
  | timer generation =>
    have hgeneration : generation = batcher.generation := by simpa [isStale] using h
    rw [take, wake, if_pos hgeneration]
    exact ⟨rfl, rfl⟩

/-- All that taking the queued events can do. -/
theorem take_cases (batcher : Batcher η) (cause : Cause) :
    (batcher.outcome cause = .stale ∧ batcher.take cause = (none, batcher)) ∨
    (batcher.outcome cause = .empty ∧ batcher.pending = [] ∧
      (batcher.take cause).1 = none ∧ (batcher.take cause).2.pending = []) ∨
    (batcher.outcome cause = .unheard ∧ batcher.handler = none ∧
      (batcher.take cause).1 = none ∧ (batcher.take cause).2.pending = []) ∨
    (batcher.outcome cause = .taken ∧ batcher.pending ≠ [] ∧
      (∃ handler, (batcher.take cause).1 = some ⟨handler, batcher.batch⟩) ∧
      (batcher.take cause).2.pending = []) := by
  by_cases hstale : batcher.isStale cause = true
  · refine .inl ⟨by rw [outcome, if_pos hstale], ?_⟩
    cases cause with
    | flush => exact absurd hstale Bool.false_ne_true
    | timer generation =>
      have hgeneration : generation ≠ batcher.generation := by simpa [isStale] using hstale
      rw [take, wake, if_neg hgeneration]
  refine .inr ?_
  -- From here on the queue is emptied; what is delivered depends on queue and handler.
  obtain ⟨htaken, hpending⟩ := take_of_not_isStale (Bool.eq_false_iff.mpr hstale)
  rw [outcome, if_neg hstale, htaken, drain_delivery]
  by_cases hempty : batcher.pending = []
  · exact .inl ⟨by simp [hempty], hempty, by simp [hempty], hpending⟩
  cases hhandler : batcher.handler with
  | none => exact .inr (.inl ⟨by simp [hempty], rfl, by simp, hpending⟩)
  | some handler =>
    exact .inr (.inr ⟨by simp [hempty], hempty, ⟨handler, by simp [hempty]⟩, hpending⟩)

/-! ## 2. Events of different paths -/

def Apart (events : List WatchEvent) : Prop :=
  events.Pairwise fun a b => a.path.same b.path = false

theorem Apart.perm {events others : List WatchEvent} (h : Apart events)
    (hperm : others.Perm events) : Apart others :=
  hperm.symm.pairwise h fun hab => by rw [Path.same, BEq.comm]; exact hab

theorem Apart.put {pending : List WatchEvent} (h : Apart pending) (event : WatchEvent) :
    Apart (put pending event) := by
  refine List.pairwise_append.mpr ⟨h.filter _, List.pairwise_singleton _ _, ?_⟩
  intro queued hqueued other hother
  obtain rfl := List.mem_singleton.mp hother
  simpa using (List.mem_filter.mp hqueued).2

end Batcher

/-! ## 3. Steps -/

/-- Who holds the delivery lock, and how far they are. -/
inductive Holder (η : Type)
  | nobody
  /-- A delivery that has not looked at the state yet. -/
  | entered (cause : Batcher.Cause)
  /-- A delivery that has taken a batch and not called the handler yet. -/
  | holding (delivery : Delivery η)
  | calling
  | clearing
  /-- Someone who has nothing left to do. -/
  | leaving
  deriving DecidableEq, Repr

/-- The events that are taken from the queue and not handed over yet. -/
def Holder.inFlight {η : Type} : Holder η → List WatchEvent
  | .holding delivery => delivery.batch.events
  | _ => []

theorem Holder.inFlight_congr {η : Type} {holder other : Holder η}
    (h : ∀ delivery, holder = .holding delivery ↔ other = .holding delivery) :
    holder.inFlight = other.inFlight := by
  cases holder <;> cases other <;> simp_all [inFlight]

/-- A batcher that threads share. -/
structure SharedBatcher (η : Type) where
  batcher : Batcher η
  holder : Holder η := .nobody
  /-- The generations of all timers ever started. -/
  timers : List Nat := []
  /-- The deliveries whose handler was called, in the order of the calls. -/
  delivered : List (Delivery η) := []
  deriving DecidableEq, Repr

/-- What a thread may do. -/
inductive BatcherAction (η : Type)
  | register (handler : η)
  | enqueue (now : Nat) (event : WatchEvent)
  /-- A delivery gets the delivery lock. -/
  | enter (cause : Batcher.Cause)
  /-- A delivery looks at the state and takes what is to be delivered. -/
  | drain (outcome : Batcher.Outcome)
  | call
  /-- A clear gets the delivery lock. -/
  | enterClear
  | clear
  /-- Whoever holds the delivery lock gives it back and returns. -/
  | leave
  deriving DecidableEq, Repr

namespace SharedBatcher

variable {η : Type}

def start (window : Nat) : SharedBatcher η :=
  { batcher := { window } }

def batch (shared : SharedBatcher η) (n : Nat) : List WatchEvent :=
  (shared.delivered[n]?.map fun delivery => delivery.batch.events).getD []

/-- All events that are handed over, on their way or queued. -/
def events (shared : SharedBatcher η) : List WatchEvent :=
  (shared.delivered.flatMap fun delivery => delivery.batch.events) ++
    (shared.holder.inFlight ++ shared.batcher.pending)

/-- A delivery for that cause may come: a timer, only after it was started. -/
def MayCome (shared : SharedBatcher η) : Batcher.Cause → Prop
  | .flush => True
  | .timer generation => generation ∈ shared.timers

instance (shared : SharedBatcher η) : DecidablePred shared.MayCome
  | .flush => .isTrue trivial
  | .timer generation => inferInstanceAs (Decidable (generation ∈ shared.timers))

def drained (shared : SharedBatcher η) (cause : Batcher.Cause) : SharedBatcher η :=
  let (delivery, batcher) := shared.batcher.take cause
  { shared with
    batcher
    holder := match delivery with
      | some delivery => .holding delivery
      | none => .leaving }

/-- The steps of all threads. -/
inductive Step : SharedBatcher η → BatcherAction η → SharedBatcher η → Prop
  | register (shared : SharedBatcher η) (handler : η) :
      Step shared (.register handler) { shared with batcher := shared.batcher.onBatch handler }
  | enqueue (shared : SharedBatcher η) (now : Nat) (event : WatchEvent) :
      Step shared (.enqueue now event)
        { shared with
          batcher := shared.batcher.enqueue now event
          timers := shared.timers ++ [(shared.batcher.enqueue now event).generation] }
  | enter {shared : SharedBatcher η} (cause : Batcher.Cause) (free : shared.holder = .nobody)
      (comes : shared.MayCome cause) :
      Step shared (.enter cause) { shared with holder := .entered cause }
  | drain {shared : SharedBatcher η} {cause : Batcher.Cause}
      (entered : shared.holder = .entered cause) :
      Step shared (.drain (shared.batcher.outcome cause)) (shared.drained cause)
  | call {shared : SharedBatcher η} {delivery : Delivery η}
      (holding : shared.holder = .holding delivery) :
      Step shared .call
        { shared with holder := .calling, delivered := shared.delivered ++ [delivery] }
  | enterClear {shared : SharedBatcher η} (free : shared.holder = .nobody) :
      Step shared .enterClear { shared with holder := .clearing }
  | clear {shared : SharedBatcher η} (clearing : shared.holder = .clearing) :
      Step shared .clear { shared with batcher := shared.batcher.clear, holder := .leaving }
  | leave {shared : SharedBatcher η} (done : shared.holder = .calling ∨ shared.holder = .leaving) :
      Step shared .leave { shared with holder := .nobody }

/-! ## 4. Runs -/

/-- The actions lead from an unused batcher to the given one. -/
inductive Run (window : Nat) : List (BatcherAction η) → SharedBatcher η → Prop
  | start : Run window [] (start window)
  | step {trace : List (BatcherAction η)} {shared after : SharedBatcher η}
      {action : BatcherAction η} (run : Run window trace shared)
      (step : Step shared action after) : Run window (trace ++ [action]) after

-- The last action of a run, and the run before it.
theorem Run.of_snoc {window : Nat} {trace : List (BatcherAction η)} {action : BatcherAction η}
    {after : SharedBatcher η} (h : Run window (trace ++ [action]) after) :
    ∃ shared, Run window trace shared ∧ Step shared action after := by
  generalize hall : trace ++ [action] = all at h
  cases h with
  | start => simp at hall
  | step run step =>
    obtain ⟨rfl, hlast⟩ := List.append_inj' hall rfl
    obtain rfl := List.singleton_inj.mp hlast
    exact ⟨_, run, step⟩

theorem Run.of_append {window : Nat} {trace later : List (BatcherAction η)}
    {after : SharedBatcher η} (h : Run window (trace ++ later) after) :
    ∃ shared, Run window trace shared := by
  induction later using List.reverseRecOn generalizing after with
  | nil => exact ⟨after, by simpa using h⟩
  | append_singleton later action ih =>
    rw [← List.append_assoc] at h
    obtain ⟨shared, run, -⟩ := h.of_snoc
    exact ih run

end SharedBatcher

end Scrutiny
