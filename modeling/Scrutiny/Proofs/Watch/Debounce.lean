import Scrutiny.Proofs.Watch.Timeline

/-!
Debouncing on a clock that is read at every instant.  A timer runs exactly while events are queued,
it ends a window after the latest enqueue, and then the last event of each path goes to the handler
of that moment.

On a clock that leaps past the end of a window, the timer fires where the leap ends.
-/

namespace Scrutiny

namespace Timeline

open Chronicle

variable {window : Nat} {entries : List ChronicleEntry} {timeline : Timeline}

/-! ## 1. Instants -/

def Step.duration : Step → Nat
  | .advance duration => duration
  | _ => 0

theorem settleWithin_now (bound : Nat) (timeline : Timeline) :
    (settleWithin bound timeline).2.now = timeline.now := by
  induction bound generalizing timeline with
  | zero => rfl
  | succ bound ih =>
    rw [settleWithin]
    cases timeline.due? with
    | none => rfl
    | some timer => exact (ih _).trans (deliver_now timeline _)

theorem step_now (timeline : Timeline) (step : Step) :
    (timeline.step step).2.now = timeline.now + step.duration := by
  have hact : (timeline.act step).2.now = timeline.now + step.duration := by
    cases step with
    | flush => exact deliver_now timeline _
    | register _ | enqueue _ | advance _ | clear => rfl
  change (timeline.act step).2.settle.2.now = timeline.now + step.duration
  rw [settle, settleWithin_now, hact]

/-- A timer fires in a step if the clock reaches, or leaps past, the end of the window. -/
theorem Reflects.exists_isExpiry (h : Reflects window entries timeline) (step : Step) :
    (∃ happening ∈ timeline.happenings step, happening.isExpiry = true) ↔
      ∃ time, latest entries = some time ∧ timeline.now < time + window ∧
        time + window ≤ timeline.now + step.duration := by
  have hanswer (delivery : Option (Delivery Handler)) :
      ∀ happening ∈ (answer delivery).map Happening.enqueue, happening.isExpiry ≠ true := by
    simp [Happening.isExpiry]
  have hnever : ¬ ∃ time, latest entries = some time ∧ timeline.now < time + window ∧
      time + window ≤ timeline.now + 0 := by
    rintro ⟨time, -, hnow, hdue⟩
    omega
  cases step with
  | advance duration =>
    obtain ⟨time, htime, hnow, hdue, htimer⟩ | ⟨hearly, hnone⟩ := h.due?_cases duration
    · refine iff_of_true ?_ ⟨time, htime, hnow, hdue⟩
      rw [happenings, htimer]
      exact ⟨_, List.mem_cons_self, rfl⟩
    · refine iff_of_false ?_ ?_
      · rw [happenings, hnone]
        simp
      · rintro ⟨time, htime, hnow, hdue⟩
        exact absurd (hearly time htime hnow) (Nat.not_lt.mpr hdue)
  | register _ | enqueue _ | flush | clear =>
    refine iff_of_false ?_ hnever
    simp [happenings, taking, Happening.isExpiry]

/-- Up to now, a timer fired at every instant that ended the window, and at no other. -/
def IsTimely (window : Nat) (entries : List ChronicleEntry) (now : Nat) : Prop :=
  ∀ instant ≤ now, (∃ entry ∈ entries, entry.time = instant ∧ entry.happening.isExpiry = true) ↔
    Ripens window entries instant

theorem IsTimely.step (h : IsTimely window entries timeline.now)
    (hreflects : Reflects window entries timeline) {step : Step} (hstep : step.duration ≤ 1) :
    IsTimely window (entries ++ timeline.entriesOf step) (timeline.step step).2.now := by
  intro instant hinstant
  rw [step_now] at hinstant
  have hnew : (∃ entry ∈ timeline.entriesOf step, entry.time = instant ∧
      entry.happening.isExpiry = true) ↔
        timeline.now + step.duration = instant ∧ ∃ time, latest entries = some time ∧
          timeline.now < time + window ∧ time + window ≤ timeline.now + step.duration := by
    rw [← hreflects.exists_isExpiry step, ← step_now]
    simp only [entriesOf, List.mem_map, exists_exists_and_eq_and]
    constructor
    · rintro ⟨happening, hmem, htime, hexpiry⟩
      exact ⟨htime, happening, hmem, hexpiry⟩
    · rintro ⟨htime, happening, hmem, hexpiry⟩
      exact ⟨happening, hmem, htime, hexpiry⟩
  have hlater : ∀ entry ∈ timeline.entriesOf step, instant ≤ entry.time := by
    simpa [entriesOf, step_now] using fun _ _ => hinstant
  have happend : (∃ entry ∈ entries ++ timeline.entriesOf step, entry.time = instant ∧
      entry.happening.isExpiry = true) ↔
        (∃ entry ∈ entries, entry.time = instant ∧ entry.happening.isExpiry = true) ∨
        ∃ entry ∈ timeline.entriesOf step, entry.time = instant ∧
          entry.happening.isExpiry = true := by
    simp only [List.mem_append, or_and_right, exists_or]
  rw [ripens_append hlater, happend, hnew]
  by_cases hpast : instant ≤ timeline.now
  · rw [h instant hpast]
    refine or_iff_left ?_
    rintro ⟨hnow, time, -, hnot, hdue⟩
    omega
  · have hfuture : ∀ entry ∈ entries, entry.time < instant := fun entry hentry =>
      Nat.lt_of_le_of_lt (hreflects.time_le entry hentry) (Nat.lt_of_not_le hpast)
    rw [ripens_iff hfuture]
    constructor
    · rintro (⟨entry, hentry, htime, -⟩ | ⟨hnow, time, htime, hnot, hdue⟩)
      · exact absurd htime (Nat.ne_of_lt (hfuture entry hentry))
      · exact ⟨time, htime, by omega⟩
    · rintro ⟨time, htime, hripe⟩
      exact .inr ⟨by omega, time, htime, by omega, by omega⟩

/-! ## 2. Runs -/

theorem Reflects.follow (h : Reflects window entries timeline) (hwindow : 0 < window)
    (steps : List Step) :
    Reflects window (entries ++ timeline.chronicle steps) (timeline.follow steps).2 := by
  induction steps generalizing entries timeline with
  | nil =>
    rw [chronicle, List.append_nil]
    exact h
  | cons step steps ih =>
    rw [chronicle, ← List.append_assoc]
    exact ih (h.recorded hwindow step).reflects

theorem Reflects.handed_follow (h : Reflects window entries timeline) (hwindow : 0 < window)
    (steps : List Step) :
    (timeline.follow steps).1.map handedOver =
      (timeline.chronicle steps).filterMap fun entry => entry.happening.handed := by
  induction steps generalizing entries timeline with
  | nil => rfl
  | cons step steps ih =>
    have hstep := h.recorded hwindow step
    have hsteps := ih hstep.reflects
    have hentries : (timeline.entriesOf step).filterMap (fun entry => entry.happening.handed) =
        (timeline.happenings step).filterMap Happening.handed := by
      rw [entriesOf, List.filterMap_map]
      rfl
    rw [chronicle, List.filterMap_append, hentries, ← hstep.handed, ← hsteps, ← List.map_append]
    rfl

theorem IsTimely.follow (h : IsTimely window entries timeline.now)
    (hreflects : Reflects window entries timeline) (hwindow : 0 < window) {steps : List Step}
    (hsteps : ∀ step ∈ steps, step.duration ≤ 1) :
    IsTimely window (entries ++ timeline.chronicle steps) (timeline.follow steps).2.now := by
  induction steps generalizing entries timeline with
  | nil =>
    rw [chronicle, List.append_nil]
    exact h
  | cons step steps ih =>
    rw [chronicle, ← List.append_assoc]
    exact ih (h.step hreflects (hsteps step List.mem_cons_self))
      (hreflects.recorded hwindow step).reflects
      (fun other hother => hsteps other (List.mem_cons_of_mem _ hother))

/-- A step on a clock that is read at every instant: time passes in leaps of one. -/
def Step.ticks : Step → List Step
  | .advance duration => List.replicate duration (.advance 1)
  | step => [step]

theorem duration_le_one_of_mem_ticks {step tick : Step} (h : tick ∈ step.ticks) :
    tick.duration ≤ 1 := by
  cases step with
  | advance duration => rw [List.eq_of_mem_replicate h]; exact Nat.le_refl 1
  | register _ | enqueue _ | flush | clear =>
    rw [List.mem_singleton.mp h]
    exact Nat.zero_le 1

/-- Time may pass in one leap as well as in ticks, as long as no window ends on the way. -/
theorem follow_ticks_advance {timeline : Timeline} {duration : Nat}
    (hsettled : timeline.due? = none)
    (hdue : ∀ timer, timeline.batcher.timer = some timer → timeline.now + duration ≤ timer.due) :
    timeline.follow (Step.advance duration).ticks = timeline.step (.advance duration) := by
  induction duration generalizing timeline with
  | zero =>
    have hstep : timeline.step (.advance 0) = timeline.act (.advance 0) :=
      step_of_due?_eq_none hsettled
    exact hstep.symm
  | succ duration ih =>
    cases duration with
    | zero => simp [Step.ticks, follow]
    | succ duration =>
      let later : Timeline := { timeline with now := timeline.now + 1 }
      have hnone : later.due? = none := by
        refine Option.filter_eq_none_iff.mpr fun timer htimer => ?_
        have hdue := hdue timer htimer
        simp only [later, decide_eq_true_eq]
        omega
      have htick : timeline.step (.advance 1) = ([], later) := step_of_due?_eq_none hnone
      have hrest := ih hnone fun timer htimer => by
        have hdue := hdue timer htimer
        simp only [later]
        omega
      have hleap : later.step (.advance (duration + 1)) =
          timeline.step (.advance (duration + 1 + 1)) := by
        rw [Timeline.step, Timeline.step, act, act, Nat.add_assoc, Nat.add_comm 1]
      rw [← hleap, ← hrest, Step.ticks, List.replicate_succ, follow, htick]
      rfl

/-! ## 3. Debouncing -/

/-- What debouncing promises of a timeline with its deliveries and its chronicle. -/
structure Debounces (window : Nat) (deliveries : List (Delivery Handler))
    (entries : List ChronicleEntry) (timeline : Timeline) : Prop where
  armed : timeline.batcher.isArmed = true ↔ timeline.batcher.pending ≠ []
  /-- A timer fires at each instant that is a window after the latest enqueue, if no flush or clear
  came in between, and at no other. -/
  expires (instant : Nat) :
    (∃ entry ∈ entries, entry.time = instant ∧ entry.happening.isExpiry = true) ↔
      instant ≤ timeline.now ∧ Ripens window entries instant
  /-- Whatever a timer or a flush hands over is what the entries before it call for. -/
  consistent : IsConsistent entries
  delivered : deliveries.map handedOver = entries.filterMap fun entry => entry.happening.handed

/-- Whatever happens to a batcher as time passes, it debounces. -/
theorem debounces_follow (hwindow : 0 < window) (steps : List Step) :
    Debounces window ((start window).follow (steps.flatMap Step.ticks)).1
      ((start window).chronicle (steps.flatMap Step.ticks))
      ((start window).follow (steps.flatMap Step.ticks)).2 := by
  have hstart := Reflects.start window
  have hreflects := hstart.follow hwindow (steps.flatMap Step.ticks)
  have htimely : IsTimely window [] (start window).now := by
    intro instant hinstant
    refine iff_of_false (by simp) ?_
    rintro ⟨time, htime, -⟩
    simp [latest] at htime
  have hticks : ∀ tick ∈ steps.flatMap Step.ticks, tick.duration ≤ 1 := by
    intro tick htick
    obtain ⟨step, -, htick⟩ := List.mem_flatMap.mp htick
    exact duration_le_one_of_mem_ticks htick
  have hexpires := htimely.follow hstart hwindow hticks
  rw [List.nil_append] at hreflects hexpires
  refine ⟨?_, fun instant => ?_, hreflects.consistent, hstart.handed_follow hwindow _⟩
  · rw [hreflects.isArmed_iff, hreflects.pending, ne_eq, ne_eq, Batcher.queueOf_eq_nil]
  · by_cases hnow : instant ≤ ((start window).follow (steps.flatMap Step.ticks)).2.now
    · rw [hexpires instant hnow, and_iff_right hnow]
    · refine iff_of_false ?_ fun h => hnow h.1
      rintro ⟨entry, hentry, rfl, -⟩
      exact hnow (hreflects.time_le entry hentry)

-- A burst on one path, an answer of the handler in the course of a long advance, and a clear
-- right before the end of a window.
theorem debounces_sample :
    let steps : List Step :=
      [.register ⟨"first", [[⟨.change, ⟨"b.ts"⟩, 4⟩]]⟩,
        .enqueue [⟨.add, ⟨"a.ts"⟩, 1⟩, ⟨.change, ⟨"a.ts"⟩, 2⟩], .advance 2,
        .enqueue [⟨.unlink, ⟨"a.ts"⟩, 3⟩], .advance 9,
        .enqueue [⟨.add, ⟨"c.ts"⟩, 5⟩], .advance 2, .clear, .advance 7]
    let run := (start 3).follow (steps.flatMap Step.ticks)
    let entries := (start 3).chronicle (steps.flatMap Step.ticks)
    0 < 3 ∧ Debounces 3 run.1 entries run.2 ∧
      (entries.filter fun entry => entry.happening.isExpiry).map ChronicleEntry.time = [5, 8] := by
  intro steps run entries
  exact ⟨by decide, debounces_follow (by decide) steps, by decide⟩

end Timeline

end Scrutiny
