import Scrutiny.Watch.Timeline
import Scrutiny.Proofs.Watch.Chronicle

/-!
The chronicle of a timeline.  Each step of a timeline is accounted for by the entries it adds, and
from the chronicle alone one can tell the queue, the handler and the timer.
-/

namespace Scrutiny

namespace Timeline

open Chronicle

/-! ## 1. What happens on a timeline -/

/-- Who is given what with a delivery. -/
def handedOver (delivery : Delivery Handler) : String × EventBatch :=
  (delivery.handler.name, delivery.batch)

/-- What the handler of a delivery enqueues in answer to it. -/
def answer : Option (Delivery Handler) → List WatchEvent
  | none => []
  | some delivery => delivery.handler.answers.headD []

/-- The queue is emptied, and the handler answers. -/
def taking (timeline : Timeline) (cause : Batcher.Cause) : List Happening :=
  let delivery := (timeline.batcher.take cause).1
  .take cause (delivery.map handedOver) :: (answer delivery).map .enqueue

/-- What happens in a step. -/
def happenings (timeline : Timeline) : Step → List Happening
  | .register handler => [.register handler.name]
  | .enqueue events => events.map .enqueue
  | .advance duration =>
      match ({ timeline with now := timeline.now + duration } : Timeline).due? with
      | none => []
      | some timer => timeline.taking (.timer timer.generation)
  | .flush => timeline.taking .flush
  | .clear => [.clear]

/-- Takes one step after the other. -/
def follow (timeline : Timeline) : List Step → List (Delivery Handler) × Timeline
  | [] => ([], timeline)
  | step :: steps =>
      let (first, timeline) := timeline.step step
      let (later, timeline) := timeline.follow steps
      (first ++ later, timeline)

/-- The entries of a step.  All of it happens when the clock has moved. -/
def entriesOf (timeline : Timeline) (step : Step) : List ChronicleEntry :=
  (timeline.happenings step).map fun happening => ⟨(timeline.step step).2.now, happening⟩

/-- The chronicle of the steps. -/
def chronicle (timeline : Timeline) : List Step → List ChronicleEntry
  | [] => []
  | step :: steps => timeline.entriesOf step ++ (timeline.step step).2.chronicle steps

/-! ## 2. Steps at once -/

theorem deliver_fst (timeline : Timeline) (taken : Option (Delivery Handler) × Batcher Handler) :
    (timeline.deliver taken).1 = taken.1.toList := by
  obtain ⟨delivery, batcher⟩ := taken
  cases delivery <;> rfl

theorem settle_of_due?_eq_none {timeline : Timeline} (h : timeline.due? = none) :
    timeline.settle = ([], timeline) := by
  rw [settle, settleWithin, h]

-- One timer fires, and the one that the answer starts is not due yet.
theorem settle_of_due? {timeline : Timeline} {timer : Timer} (h : timeline.due? = some timer)
    (hafter : (timeline.deliver (timeline.batcher.wake timer.generation)).2.due? = none) :
    timeline.settle = timeline.deliver (timeline.batcher.wake timer.generation) := by
  have hrest (bound : Nat) :
      settleWithin bound (timeline.deliver (timeline.batcher.wake timer.generation)).2 =
        ([], (timeline.deliver (timeline.batcher.wake timer.generation)).2) := by
    cases bound with
    | zero => rfl
    | succ bound => rw [settleWithin, hafter]
  rw [settle, settleWithin, h]
  simp only [hrest, List.append_nil]

theorem step_of_due?_eq_none {timeline : Timeline} {step : Step}
    (h : (timeline.act step).2.due? = none) : timeline.step step = timeline.act step := by
  simp only [Timeline.step, settle_of_due?_eq_none h, List.append_nil]

/-! ## 3. The state that a chronicle tells -/

/-- The batcher and the clock are as the chronicle tells. -/
structure Reflects (window : Nat) (entries : List ChronicleEntry) (timeline : Timeline) : Prop where
  consistent : IsConsistent entries
  time_le : ∀ entry ∈ entries, entry.time ≤ timeline.now
  window_eq : timeline.batcher.window = window
  pending : timeline.batcher.pending = Batcher.queueOf (queued entries)
  name : timeline.batcher.handler.map Handler.name = registered entries
  timer : timeline.batcher.timer =
    ((latest entries).filter fun time => timeline.now < time + window).map fun time =>
      ⟨timeline.batcher.generation, time + window⟩
  queued_eq_nil : queued entries = [] ↔
    ∀ time, latest entries = some time → time + window ≤ timeline.now

namespace Reflects

variable {window : Nat} {entries : List ChronicleEntry} {timeline : Timeline}

theorem start (window : Nat) : Reflects window [] (Timeline.start window) where
  consistent := by
    intro before entry later h
    simp at h
  time_le := by simp
  window_eq := rfl
  pending := rfl
  name := rfl
  timer := rfl
  queued_eq_nil := by simp [queued, latest]

theorem timer_eq_none (h : Reflects window entries timeline)
    (hlatest : ∀ time, latest entries = some time → time + window ≤ timeline.now) :
    timeline.batcher.timer = none := by
  rw [h.timer]
  cases htime : latest entries with
  | none => rfl
  | some time => simpa using hlatest time htime

theorem timer_eq_some (h : Reflects window entries timeline) {time : Nat}
    (htime : latest entries = some time) (hnow : timeline.now < time + window) :
    timeline.batcher.timer = some ⟨timeline.batcher.generation, time + window⟩ := by
  rw [h.timer, htime]
  simp [hnow]

/-- A timer runs exactly while events are queued. -/
theorem isArmed_iff (h : Reflects window entries timeline) :
    timeline.batcher.isArmed = true ↔ queued entries ≠ [] := by
  rw [Batcher.isArmed, ne_eq, h.queued_eq_nil]
  by_cases hlatest : ∀ time, latest entries = some time → time + window ≤ timeline.now
  · rw [h.timer_eq_none hlatest]
    exact iff_of_false Bool.false_ne_true (not_not_intro hlatest)
  · obtain ⟨time, htime, hnow⟩ : ∃ time, latest entries = some time ∧
        timeline.now < time + window := by simpa using hlatest
    rw [h.timer_eq_some htime hnow]
    exact iff_of_true rfl hlatest

/-- All that the passing of time can do. -/
theorem due?_cases (h : Reflects window entries timeline) (duration : Nat) :
    (∃ time, latest entries = some time ∧ timeline.now < time + window ∧
      time + window ≤ timeline.now + duration ∧
      ({ timeline with now := timeline.now + duration } : Timeline).due? =
        some ⟨timeline.batcher.generation, time + window⟩) ∨
    ((∀ time, latest entries = some time → timeline.now < time + window →
        timeline.now + duration < time + window) ∧
      ({ timeline with now := timeline.now + duration } : Timeline).due? = none) := by
  by_cases hlatest : ∀ time, latest entries = some time → time + window ≤ timeline.now
  · refine .inr ⟨fun time htime hnow => absurd (hlatest time htime) (by omega), ?_⟩
    rw [due?, h.timer_eq_none hlatest]
    rfl
  · obtain ⟨time, htime, hnow⟩ : ∃ time, latest entries = some time ∧
        timeline.now < time + window := by simpa using hlatest
    rw [due?, h.timer_eq_some htime hnow]
    by_cases hdue : time + window ≤ timeline.now + duration
    · exact .inl ⟨time, htime, hnow, hdue, by simp [hdue]⟩
    · refine .inr ⟨fun other hother _ => ?_, by simpa using hdue⟩
      obtain rfl := Option.some.inj (htime.symm.trans hother)
      omega

theorem due?_eq_none (h : Reflects window entries timeline) : timeline.due? = none := by
  obtain ⟨time, -, hnow, hdue, -⟩ | ⟨-, hnone⟩ := h.due?_cases 0
  · omega
  · exact hnone

/-! ## 4. One entry more -/

-- Anything but a delivery may follow whenever its time is not past.
theorem mayFollow (h : Reflects window entries timeline) {happening : Happening}
    (hplain : ∀ cause handed, happening ≠ .take cause handed) :
    MayFollow entries ⟨timeline.now, happening⟩ where
  time_le := h.time_le
  expiry hexpiry := by
    cases happening with
    | take cause handed => exact absurd rfl (hplain cause handed)
    | register _ | enqueue _ | clear => exact absurd hexpiry Bool.false_ne_true
  hands cause handed htake := absurd htake (hplain cause handed)

theorem time_le_snoc (h : Reflects window entries timeline) {entry : ChronicleEntry}
    (hentry : timeline.now ≤ entry.time) :
    ∀ earlier ∈ entries ++ [entry], earlier.time ≤ entry.time := by
  intro earlier hearlier
  rcases List.mem_append.mp hearlier with hearlier | hearlier
  · exact Nat.le_trans (h.time_le earlier hearlier) hentry
  · exact (List.mem_singleton.mp hearlier) ▸ Nat.le_refl _

theorem register (h : Reflects window entries timeline) (handler : Handler) :
    Reflects window (entries ++ [⟨timeline.now, .register handler.name⟩])
      { timeline with batcher := timeline.batcher.onBatch handler } where
  consistent := h.consistent.snoc (h.mayFollow (by simp))
  time_le := h.time_le_snoc (Nat.le_refl _)
  window_eq := h.window_eq
  pending := by rw [queued_snoc]; exact h.pending
  name := by rw [registered_snoc]; rfl
  timer := by rw [latest_snoc]; exact h.timer
  queued_eq_nil := by rw [queued_snoc, latest_snoc]; exact h.queued_eq_nil

theorem enqueue (h : Reflects window entries timeline) (hwindow : 0 < window)
    (event : WatchEvent) :
    Reflects window (entries ++ [⟨timeline.now, .enqueue event⟩])
      { timeline with batcher := timeline.batcher.enqueue timeline.now event } where
  consistent := h.consistent.snoc (h.mayFollow (by simp))
  time_le := h.time_le_snoc (Nat.le_refl _)
  window_eq := h.window_eq
  pending := by
    rw [queued_snoc]
    exact (congrArg (Batcher.put · event) h.pending).trans (Batcher.queueOf_snoc _ _).symm
  name := by rw [registered_snoc]; exact h.name
  timer := by
    have hnow : timeline.now < timeline.now + window := by omega
    rw [latest_snoc, Option.filter_some, if_pos (by simpa using hnow)]
    rw [← h.window_eq]
    rfl
  queued_eq_nil := by
    rw [queued_snoc, latest_snoc]
    have hlater : ¬ timeline.now + window ≤ timeline.now := by omega
    simp [hlater]

theorem enqueueAll (h : Reflects window entries timeline) (hwindow : 0 < window)
    (events : List WatchEvent) :
    Reflects window (entries ++ events.map fun event => ⟨timeline.now, .enqueue event⟩)
      (timeline.enqueueAll events) := by
  induction events generalizing entries timeline with
  | nil =>
    rw [List.map_nil, List.append_nil]
    exact h
  | cons event events ih =>
    rw [List.map_cons, List.append_cons]
    exact ih (h.enqueue hwindow event)

theorem clear (h : Reflects window entries timeline) :
    Reflects window (entries ++ [⟨timeline.now, .clear⟩])
      { timeline with batcher := timeline.batcher.clear } where
  consistent := h.consistent.snoc (h.mayFollow (by simp))
  time_le := h.time_le_snoc (Nat.le_refl _)
  window_eq := h.window_eq
  pending := by rw [queued_snoc]; rfl
  name := by rw [registered_snoc]; exact h.name
  timer := by rw [latest_snoc]; rfl
  queued_eq_nil := by rw [queued_snoc, latest_snoc]; simp

/-- What is taken is what the chronicle calls for. -/
theorem hands (h : Reflects window entries timeline) {cause : Batcher.Cause}
    (hstale : timeline.batcher.isStale cause = false) :
    Hands entries ((timeline.batcher.take cause).1.map handedOver) := by
  rw [(Batcher.take_of_not_isStale hstale).1, Batcher.drain_delivery]
  by_cases hqueued : queued entries = []
  · have hempty : timeline.batcher.pending = [] := by
      rw [h.pending, hqueued]
      rfl
    rw [if_pos (List.isEmpty_iff.mpr hempty)]
    exact .inl hqueued
  · have hpending : timeline.batcher.pending ≠ [] := by
      rw [h.pending]
      exact fun hnil => hqueued (Batcher.queueOf_eq_nil.mp hnil)
    rw [if_neg (mt List.isEmpty_iff.mp hpending)]
    have hname := h.name
    cases hhandler : timeline.batcher.handler with
    | none =>
      rw [hhandler] at hname
      exact .inr hname.symm
    | some handler =>
      rw [hhandler] at hname
      exact ⟨hqueued, hname.symm, Batcher.gathers_batch h.pending⟩

theorem flush (h : Reflects window entries timeline) :
    Reflects window
      (entries ++ [⟨timeline.now, .take .flush (timeline.batcher.flush.1.map handedOver)⟩])
      { timeline with batcher := timeline.batcher.flush.2 } where
  consistent := by
    refine h.consistent.snoc ⟨h.time_le, fun hexpiry => absurd hexpiry Bool.false_ne_true, ?_⟩
    rintro cause handed htake
    obtain ⟨rfl, rfl⟩ := Happening.take.inj htake
    have hstale : timeline.batcher.isStale .flush = false := rfl
    exact h.hands hstale
  time_le := h.time_le_snoc (Nat.le_refl _)
  window_eq := h.window_eq
  pending := by rw [queued_snoc]; rfl
  name := by rw [registered_snoc]; exact h.name
  timer := by rw [latest_snoc]; rfl
  queued_eq_nil := by rw [queued_snoc, latest_snoc]; simp

/-- The end of the window, where the clock has come to it or leapt past it. -/
theorem expire (h : Reflects window entries timeline) {time duration : Nat}
    (htime : latest entries = some time) (hnow : timeline.now < time + window)
    (hdue : time + window ≤ timeline.now + duration) :
    Reflects window
      (entries ++ [⟨timeline.now + duration, .take (.timer timeline.batcher.generation)
        ((timeline.batcher.wake timeline.batcher.generation).1.map handedOver)⟩])
      { now := timeline.now + duration
        batcher := (timeline.batcher.wake timeline.batcher.generation).2 } := by
  have hwake : timeline.batcher.wake timeline.batcher.generation =
      { timeline.batcher with timer := none }.drain := if_pos rfl
  refine
    { consistent := ?consistent
      time_le := h.time_le_snoc (Nat.le_add_right _ _)
      window_eq := by rw [hwake]; exact h.window_eq
      pending := by rw [hwake, queued_snoc]; rfl
      name := by rw [hwake, registered_snoc]; exact h.name
      timer := ?timer
      queued_eq_nil := ?queued }
  case consistent =>
    refine h.consistent.snoc ⟨?_, ?_, ?_⟩
    · intro earlier hearlier
      exact Nat.le_trans (h.time_le earlier hearlier) (Nat.le_add_right _ _)
    · refine fun _ => ⟨fun hqueued => ?_, fun earlier hearlier => ?_⟩
      · exact absurd (h.queued_eq_nil.mp hqueued time htime) (Nat.not_le.mpr hnow)
      · have hearlier := h.time_le earlier hearlier
        change earlier.time < timeline.now + duration
        omega
    · rintro cause handed htake
      obtain ⟨rfl, rfl⟩ := Happening.take.inj htake
      have hstale : timeline.batcher.isStale (.timer timeline.batcher.generation) = false := by
        simp [Batcher.isStale]
      exact h.hands hstale
  case timer =>
    rw [hwake, latest_snoc]
    have hpast : ¬ timeline.now + duration < time + window := by omega
    rw [htime, Option.filter_some, if_neg (by simpa using hpast)]
    rfl
  case queued =>
    rw [queued_snoc, latest_snoc]
    simpa [htime] using hdue

/-- No window ends on the way. -/
theorem pass (h : Reflects window entries timeline) {duration : Nat}
    (hearly : ∀ time, latest entries = some time → timeline.now < time + window →
      timeline.now + duration < time + window) :
    Reflects window entries { timeline with now := timeline.now + duration } :=
  { h with
    time_le := fun entry hentry =>
      Nat.le_trans (h.time_le entry hentry) (Nat.le_add_right _ _)
    timer := by
      rw [h.timer]
      cases htime : latest entries with
      | none => rfl
      | some time =>
        have hiff : timeline.now < time + window ↔ timeline.now + duration < time + window :=
          ⟨hearly time htime, by omega⟩
        simp only [Option.filter_some, hiff]
    queued_eq_nil := by
      rw [h.queued_eq_nil]
      refine forall₂_congr fun time htime => ?_
      have hearly := hearly time htime
      change time + window ≤ timeline.now ↔ time + window ≤ timeline.now + duration
      omega }

/-! ## 5. Steps -/

theorem registered_of_take (h : Reflects window entries timeline) {cause : Batcher.Cause}
    (hstale : timeline.batcher.isStale cause = false) {delivery : Delivery Handler}
    (htake : (timeline.batcher.take cause).1 = some delivery) :
    registered entries = some delivery.handler.name := by
  have hhands := h.hands hstale
  rw [htake] at hhands
  exact hhands.2.1

theorem deliver {taken : Option (Delivery Handler) × Batcher Handler}
    (h : Reflects window entries { timeline with batcher := taken.2 }) (hwindow : 0 < window)
    (hname : ∀ delivery, taken.1 = some delivery →
      registered entries = some delivery.handler.name) :
    Reflects window
      (entries ++ (answer taken.1).map fun event => ⟨timeline.now, .enqueue event⟩)
      (timeline.deliver taken).2 := by
  obtain ⟨delivery, batcher⟩ := taken
  cases delivery with
  | none =>
    rw [answer, List.map_nil, List.append_nil]
    exact h
  | some delivery =>
    change Reflects window _ (call { timeline with batcher := batcher } delivery)
    have hname := hname delivery rfl
    rw [call, answer]
    cases delivery.handler.answers with
    | nil => simpa only [List.headD_nil, List.map_nil, List.append_nil] using h
    | cons answer later =>
      -- The handler is registered again, with the answers that are left.
      have hcalled : Reflects window entries { timeline with
          batcher := batcher.onBatch { delivery.handler with answers := later } } :=
        { h with name := hname.symm }
      exact hcalled.enqueueAll hwindow answer

end Reflects

theorem deliver_now (timeline : Timeline) (taken : Option (Delivery Handler) × Batcher Handler) :
    (timeline.deliver taken).2.now = timeline.now := by
  obtain ⟨delivery, batcher⟩ := taken
  cases delivery with
  | none => rfl
  | some delivery =>
    change (call { timeline with batcher := batcher } delivery).now = timeline.now
    rw [call]
    cases delivery.handler.answers <;> rfl

theorem handed_enqueue (events : List WatchEvent) :
    (events.map Happening.enqueue).filterMap Happening.handed = [] := by
  rw [List.filterMap_map, List.filterMap_eq_nil_iff]
  exact fun _ _ => rfl

/-- The chronicle's account of one step. -/
structure Recorded (window : Nat) (entries : List ChronicleEntry) (timeline : Timeline)
    (step : Step) : Prop where
  reflects : Reflects window (entries ++ timeline.entriesOf step) (timeline.step step).2
  handed : (timeline.step step).1.map handedOver =
    (timeline.happenings step).filterMap Happening.handed

variable {window : Nat} {entries : List ChronicleEntry} {timeline : Timeline}

-- A step that leads to a delivery: at once, or when the clock has moved.
theorem recorded_of_taking {step : Step} {later : Timeline} {cause : Batcher.Cause}
    (hstep : timeline.step step = later.deliver (later.batcher.take cause))
    (hhappenings : timeline.happenings step = later.taking cause)
    (hreflects : Reflects window (entries ++ [⟨later.now, .take cause
      ((later.batcher.take cause).1.map handedOver)⟩])
      { later with batcher := (later.batcher.take cause).2 })
    (hwindow : 0 < window)
    (hname : ∀ delivery, (later.batcher.take cause).1 = some delivery →
      registered entries = some delivery.handler.name) :
    Recorded window entries timeline step where
  reflects := by
    rw [entriesOf, hhappenings, hstep, deliver_now, taking, List.map_cons, List.map_map,
      List.append_cons]
    refine hreflects.deliver hwindow fun delivery hdelivery => ?_
    rw [registered_snoc]
    exact hname delivery hdelivery
  handed := by
    rw [hhappenings, hstep, deliver_fst, taking]
    cases (later.batcher.take cause).1 <;> simp [Happening.handed]

namespace Reflects

theorem recorded_flush (h : Reflects window entries timeline) (hwindow : 0 < window) :
    Recorded window entries timeline .flush := by
  have hname (delivery : Delivery Handler)
      (hdelivery : (timeline.batcher.take .flush).1 = some delivery) :
      registered entries = some delivery.handler.name :=
    h.registered_of_take rfl hdelivery
  have hdelivered := h.flush.deliver hwindow fun delivery hdelivery => by
    rw [registered_snoc]
    exact hname delivery hdelivery
  have hstep : timeline.step .flush = timeline.deliver timeline.batcher.flush :=
    step_of_due?_eq_none hdelivered.due?_eq_none
  exact recorded_of_taking hstep rfl h.flush hwindow hname

theorem recorded_advance (h : Reflects window entries timeline) (hwindow : 0 < window)
    (duration : Nat) : Recorded window entries timeline (.advance duration) := by
  obtain ⟨time, htime, hnow, hdue, htimer⟩ | ⟨hearly, hnone⟩ := h.due?_cases duration
  · -- The clock reaches the end of the window, so the timer fires.
    let later : Timeline := { timeline with now := timeline.now + duration }
    have hname (delivery : Delivery Handler)
        (hdelivery : (timeline.batcher.wake timeline.batcher.generation).1 = some delivery) :
        registered entries = some delivery.handler.name := by
      have hstale : timeline.batcher.isStale (.timer timeline.batcher.generation) = false := by
        simp [Batcher.isStale]
      exact h.registered_of_take hstale hdelivery
    have hexpire : Reflects window _
        { later with batcher := (timeline.batcher.wake timeline.batcher.generation).2 } :=
      h.expire htime hnow hdue
    have hdelivered := hexpire.deliver hwindow fun delivery hdelivery => by
      rw [registered_snoc]
      exact hname delivery hdelivery
    have hstep : timeline.step (.advance duration) =
        later.deliver (later.batcher.wake timeline.batcher.generation) := by
      have hsettle := settle_of_due? htimer hdelivered.due?_eq_none
      simp only [Timeline.step, act, hsettle, List.nil_append, later]
    have hhappenings : timeline.happenings (.advance duration) =
        later.taking (.timer timeline.batcher.generation) := by
      rw [happenings, htimer]
      rfl
    exact recorded_of_taking hstep hhappenings hexpire hwindow hname
  · have hstep : timeline.step (.advance duration) =
        ([], { timeline with now := timeline.now + duration }) := step_of_due?_eq_none hnone
    have hhappenings : timeline.happenings (.advance duration) = [] := by rw [happenings, hnone]
    refine ⟨?_, by rw [hstep, hhappenings]; rfl⟩
    rw [entriesOf, hhappenings, hstep, List.map_nil, List.append_nil]
    exact h.pass hearly

/-- What a step does is what the chronicle says of it. -/
theorem recorded (h : Reflects window entries timeline) (hwindow : 0 < window) (step : Step) :
    Recorded window entries timeline step := by
  cases step with
  | flush => exact h.recorded_flush hwindow
  | advance duration => exact h.recorded_advance hwindow duration
  | register handler =>
    have hstep : timeline.step (.register handler) =
        ([], { timeline with batcher := timeline.batcher.onBatch handler }) :=
      step_of_due?_eq_none (h.register handler).due?_eq_none
    exact ⟨by rw [entriesOf, hstep]; exact h.register handler, by rw [hstep]; rfl⟩
  | enqueue events =>
    have hstep : timeline.step (.enqueue events) = ([], timeline.enqueueAll events) :=
      step_of_due?_eq_none (h.enqueueAll hwindow events).due?_eq_none
    refine ⟨?_, by rw [hstep, happenings, handed_enqueue]; rfl⟩
    rw [entriesOf, happenings, hstep, List.map_map]
    exact h.enqueueAll hwindow events
  | clear =>
    have hstep : timeline.step .clear =
        ([], { timeline with batcher := timeline.batcher.clear }) :=
      step_of_due?_eq_none h.clear.due?_eq_none
    exact ⟨by rw [entriesOf, hstep]; exact h.clear, by rw [hstep]; rfl⟩

end Reflects

end Timeline

end Scrutiny
