import Mathlib.Data.List.Induction
import Scrutiny.Proofs.Path
import Scrutiny.Proofs.Watch.Interleaving

/-!
What happens to a batcher in the course of time, written down entry by entry.  From a chronicle
alone one can tell which events are queued, who would be given them, and when the window ends.
-/

namespace Scrutiny

/-! ## 1. Entries -/

/-- Something that happens to a batcher. -/
inductive Happening
  | register (handler : String)
  | enqueue (event : WatchEvent)
  /-- The queue is emptied.  What was in it goes to a handler, or is lost. -/
  | take (cause : Batcher.Cause) (handed : Option (String × EventBatch))
  | clear
  deriving DecidableEq, Repr

namespace Happening

/-- A timer made it happen. -/
def isExpiry : Happening → Bool
  | take (.timer _) _ => true
  | _ => false

/-- What is handed over. -/
def handed : Happening → Option (String × EventBatch)
  | take _ handed => handed
  | _ => none

end Happening

structure ChronicleEntry where
  time : Nat
  happening : Happening
  deriving DecidableEq, Repr

namespace Chronicle

variable {entries : List ChronicleEntry}

/-! ## 2. What a chronicle tells -/

/-- The events enqueued since the queue was last emptied, each as often as it was enqueued. -/
def queued (entries : List ChronicleEntry) : List WatchEvent :=
  entries.foldl (fun events entry =>
    match entry.happening with
    | .register _ => events
    | .enqueue event => events ++ [event]
    | .take _ _ | .clear => []) []

/-- The name of the handler that was registered last. -/
def registered (entries : List ChronicleEntry) : Option String :=
  entries.foldl (fun name entry =>
    match entry.happening with
    | .register handler => some handler
    | .enqueue _ | .take _ _ | .clear => name) none

/-- The time of the latest enqueue, unless a flush or a clear came after it. -/
def latest (entries : List ChronicleEntry) : Option Nat :=
  entries.foldl (fun time entry =>
    match entry.happening with
    | .enqueue _ => some entry.time
    | .take .flush _ | .clear => none
    | .register _ | .take (.timer _) _ => time) none

/-- The window ends at this instant. -/
def Ripens (window : Nat) (entries : List ChronicleEntry) (instant : Nat) : Prop :=
  ∃ time, latest (entries.filter fun entry => entry.time < instant) = some time ∧
    time + window = instant

/-- Nothing of the same path was enqueued after this event. -/
def IsLast (events : List WatchEvent) (event : WatchEvent) : Prop :=
  ∃ earlier later, events = earlier ++ event :: later ∧
    ∀ other ∈ later, other.path.same event.path = false

/-- The batch holds the last event of each path, in the order of their timestamps and, for one
timestamp, of their paths. -/
structure Gathers (batch : EventBatch) (events : List WatchEvent) : Prop where
  mem_iff : ∀ event, event ∈ batch.events ↔ IsLast events event
  apart : Batcher.Apart batch.events
  ordered : batch.events.Pairwise fun a b =>
    a.timestamp < b.timestamp ∨ a.timestamp = b.timestamp ∧ a.path.le b.path = true

/-- What is handed over when the queue is emptied after these entries: the batch of the queued
events, to the handler that is registered, and nothing without events or without a handler. -/
def Hands (entries : List ChronicleEntry) : Option (String × EventBatch) → Prop
  | none => queued entries = [] ∨ registered entries = none
  | some (handler, batch) =>
      queued entries ≠ [] ∧ registered entries = some handler ∧ Gathers batch (queued entries)

/-- The entry may come after the ones before it.  A timer fires before anything else happens at
that time, and only if events are queued. -/
structure MayFollow (before : List ChronicleEntry) (entry : ChronicleEntry) : Prop where
  time_le : ∀ earlier ∈ before, earlier.time ≤ entry.time
  expiry : entry.happening.isExpiry = true →
    queued before ≠ [] ∧ ∀ earlier ∈ before, earlier.time < entry.time
  hands : ∀ cause handed, entry.happening = .take cause handed → Hands before handed

def IsConsistent (entries : List ChronicleEntry) : Prop :=
  ∀ before entry later, entries = before ++ entry :: later → MayFollow before entry

theorem queued_snoc (entry : ChronicleEntry) : queued (entries ++ [entry]) =
    match entry.happening with
    | .register _ => queued entries
    | .enqueue event => queued entries ++ [event]
    | .take _ _ | .clear => [] := by
  rw [queued, List.foldl_append]
  rfl

theorem registered_snoc (entry : ChronicleEntry) : registered (entries ++ [entry]) =
    match entry.happening with
    | .register handler => some handler
    | .enqueue _ | .take _ _ | .clear => registered entries := by
  rw [registered, List.foldl_append]
  rfl

theorem latest_snoc (entry : ChronicleEntry) : latest (entries ++ [entry]) =
    match entry.happening with
    | .enqueue _ => some entry.time
    | .take .flush _ | .clear => none
    | .register _ | .take (.timer _) _ => latest entries := by
  rw [latest, List.foldl_append]
  rfl

theorem IsConsistent.snoc {entry : ChronicleEntry} (h : IsConsistent entries)
    (hentry : MayFollow entries entry) : IsConsistent (entries ++ [entry]) := by
  intro before other later hentries
  rcases List.eq_nil_or_concat later with rfl | ⟨later, last, rfl⟩
  · obtain ⟨rfl, hlast⟩ := List.append_inj' hentries rfl
    rwa [← List.singleton_inj.mp hlast]
  · rw [List.concat_eq_append, ← List.cons_append, ← List.append_assoc] at hentries
    exact h before other later (List.append_inj' hentries rfl).1

theorem ripens_append {window instant : Nat} {later : List ChronicleEntry}
    (hlater : ∀ entry ∈ later, instant ≤ entry.time) :
    Ripens window (entries ++ later) instant ↔ Ripens window entries instant := by
  have hnone : later.filter (fun entry => entry.time < instant) = [] := by
    rw [List.filter_eq_nil_iff]
    intro entry hentry
    simpa using hlater entry hentry
  rw [Ripens, Ripens, List.filter_append, hnone, List.append_nil]

theorem ripens_iff {window instant : Nat} (hentries : ∀ entry ∈ entries, entry.time < instant) :
    Ripens window entries instant ↔
      ∃ time, latest entries = some time ∧ time + window = instant := by
  have hall : entries.filter (fun entry => entry.time < instant) = entries := by
    rw [List.filter_eq_self]
    intro entry hentry
    simpa using hentries entry hentry
  rw [Ripens, hall]

end Chronicle

/-! ## 3. The queue of a batcher -/

theorem WatchEvent.le_eq_true_iff {a b : WatchEvent} : a.le b = true ↔
    a.timestamp < b.timestamp ∨ a.timestamp = b.timestamp ∧ a.path.le b.path = true := by
  rw [le, order, Ordering.isLE_then_iff_or, Nat.compare_eq_lt, Nat.compare_eq_eq]
  rfl

theorem WatchEvent.le_trans {a b c : WatchEvent} (hab : a.le b = true) (hbc : b.le c = true) :
    a.le c = true := by
  rw [le_eq_true_iff] at *
  obtain hab | ⟨hab, habPath⟩ := hab <;> obtain hbc | ⟨hbc, hbcPath⟩ := hbc
  · exact .inl (by omega)
  · exact .inl (by omega)
  · exact .inl (by omega)
  · exact .inr ⟨by omega, Path.le_trans habPath hbcPath⟩

theorem WatchEvent.le_total (a b : WatchEvent) : (a.le b || b.le a) = true := by
  rw [Bool.or_eq_true, le_eq_true_iff, le_eq_true_iff]
  have hpath := Path.le_total a.path b.path
  rw [Bool.or_eq_true] at hpath
  rcases Nat.lt_trichotomy a.timestamp b.timestamp with h | h | h
  · exact .inl (.inl h)
  · exact hpath.imp (fun hpath => .inr ⟨h, hpath⟩) (fun hpath => .inr ⟨h.symm, hpath⟩)
  · exact .inr (.inl h)

namespace Batcher

open Chronicle

/-- The queue that some events leave, one enqueued after the other. -/
def queueOf (events : List WatchEvent) : List WatchEvent :=
  events.foldl put []

theorem queueOf_snoc (events : List WatchEvent) (event : WatchEvent) :
    queueOf (events ++ [event]) = put (queueOf events) event := by
  rw [queueOf, List.foldl_append]
  rfl

theorem apart_queueOf (events : List WatchEvent) : Apart (queueOf events) := by
  induction events using List.reverseRecOn with
  | nil => exact List.Pairwise.nil
  | append_singleton events event ih =>
    rw [queueOf_snoc]
    exact ih.put event

theorem mem_put {pending : List WatchEvent} {event queued : WatchEvent} :
    queued ∈ put pending event ↔
      queued = event ∨ queued ∈ pending ∧ event.path.same queued.path = false := by
  rw [put, List.mem_append, List.mem_singleton, List.mem_filter, Path.same_comm event.path]
  simp only [Bool.not_eq_true', or_comm]

theorem isLast_snoc {events : List WatchEvent} {last event : WatchEvent} :
    IsLast (events ++ [last]) event ↔
      event = last ∨ IsLast events event ∧ last.path.same event.path = false := by
  constructor
  · rintro ⟨earlier, later, hevents, hlater⟩
    rcases List.eq_nil_or_concat later with rfl | ⟨later, other, rfl⟩
    · exact .inl (List.singleton_inj.mp (List.append_inj' hevents rfl).2).symm
    · rw [List.concat_eq_append, ← List.cons_append, ← List.append_assoc] at hevents
      obtain ⟨rfl, hlast⟩ := List.append_inj' hevents rfl
      obtain rfl := List.singleton_inj.mp hlast
      exact .inr ⟨⟨earlier, later, rfl, fun other hother => hlater other (by simp [hother])⟩,
        hlater last (by simp)⟩
  · rintro (rfl | ⟨⟨earlier, later, rfl, hlater⟩, hlast⟩)
    · exact ⟨events, [], rfl, by simp⟩
    · refine ⟨earlier, later ++ [last], by simp, ?_⟩
      intro other hother
      rcases List.mem_append.mp hother with hother | hother
      · exact hlater other hother
      · rwa [List.mem_singleton.mp hother]

theorem mem_queueOf {events : List WatchEvent} {event : WatchEvent} :
    event ∈ queueOf events ↔ IsLast events event := by
  induction events using List.reverseRecOn with
  | nil => simp [queueOf, IsLast]
  | append_singleton events last ih => rw [queueOf_snoc, mem_put, isLast_snoc, ih]

theorem queueOf_eq_nil {events : List WatchEvent} : queueOf events = [] ↔ events = [] := by
  rcases List.eq_nil_or_concat events with rfl | ⟨events, event, rfl⟩
  · exact iff_of_true rfl rfl
  · simp [queueOf_snoc, put]

/-- The batch of a queue. -/
theorem gathers_batch {η : Type} {batcher : Batcher η} {events : List WatchEvent}
    (h : batcher.pending = queueOf events) : Gathers batcher.batch events where
  mem_iff event := by rw [batcher.batch_perm.mem_iff, h, mem_queueOf]
  apart := by
    refine Apart.perm ?_ batcher.batch_perm
    rw [h]
    exact apart_queueOf events
  ordered := by
    have hsorted : batcher.batch.events.Pairwise fun a b => a.le b = true :=
      @List.pairwise_mergeSort WatchEvent WatchEvent.le (fun _ _ _ => WatchEvent.le_trans)
        WatchEvent.le_total _
    exact hsorted.imp WatchEvent.le_eq_true_iff.mp

end Batcher

end Scrutiny
