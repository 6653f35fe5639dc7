import Scrutiny.Watch.Batcher

/-!
A batcher on a clock that only moves when it is told to.  Whatever timer is due when a step has
been taken fires before the step is over; time that passes does so in one leap.
-/

namespace Scrutiny

/-- A batch handler: its name, and the events that it enqueues in answer to its next batches. -/
structure Handler where
  name : String
  answers : List (List WatchEvent) := []
  deriving DecidableEq, Repr

structure Timeline where
  now : Nat := 0
  batcher : Batcher Handler
  deriving DecidableEq, Repr

namespace Timeline

def start (window : Nat) : Timeline :=
  { batcher := { window } }

inductive Step
  | register (handler : Handler)
  | enqueue (events : List WatchEvent)
  | advance (duration : Nat)
  | flush
  | clear
  deriving DecidableEq, Repr

def enqueueAll (timeline : Timeline) (events : List WatchEvent) : Timeline :=
  { timeline with
    batcher := events.foldl (fun batcher event => batcher.enqueue timeline.now event)
      timeline.batcher }

def call (timeline : Timeline) (delivery : Delivery Handler) : Timeline :=
  match delivery.handler.answers with
  | [] => timeline
  | answer :: later =>
      let handler := { delivery.handler with answers := later }
      { timeline with batcher := timeline.batcher.onBatch handler }.enqueueAll answer

def deliver (timeline : Timeline) (taken : Option (Delivery Handler) × Batcher Handler) :
    List (Delivery Handler) × Timeline :=
  let timeline := { timeline with batcher := taken.2 }
  match taken.1 with
  | none => ([], timeline)
  | some delivery => ([delivery], timeline.call delivery)

def due? (timeline : Timeline) : Option Timer :=
  timeline.batcher.timer.filter fun timer => timer.due ≤ timeline.now

def settleWithin : Nat → Timeline → List (Delivery Handler) × Timeline
  | 0, timeline => ([], timeline)
  | bound + 1, timeline =>
      match timeline.due? with
      | none => ([], timeline)
      | some timer =>
          let (first, timeline) := timeline.deliver (timeline.batcher.wake timer.generation)
          let (later, timeline) := settleWithin bound timeline
          (first ++ later, timeline)

/-- Fires timers until none is due.  Each but the last uses up an answer of the handler. -/
def settle (timeline : Timeline) : List (Delivery Handler) × Timeline :=
  let answers := (timeline.batcher.handler.map fun handler => handler.answers.length).getD 0
  settleWithin (answers + 1) timeline

def act (timeline : Timeline) : Step → List (Delivery Handler) × Timeline
  | .register handler => ([], { timeline with batcher := timeline.batcher.onBatch handler })
  | .enqueue events => ([], timeline.enqueueAll events)
  | .advance duration => ([], { timeline with now := timeline.now + duration })
  | .flush => timeline.deliver timeline.batcher.flush
  | .clear => ([], { timeline with batcher := timeline.batcher.clear })

def step (timeline : Timeline) (step : Step) : List (Delivery Handler) × Timeline :=
  let (first, timeline) := timeline.act step
  let (later, timeline) := timeline.settle
  (first ++ later, timeline)

end Timeline

end Scrutiny
