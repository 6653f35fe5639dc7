import Scrutiny.Watch.Event

/-!
Collecting events until changes stop.  A batcher keeps the last event of each path and restarts
a timer with every event; when the timer ends, all queued events go to the handler as one batch.
Each start and each stop of a timer begins a new generation, and a timer that wakes in another
generation than its own does nothing.
-/

namespace Scrutiny

structure Timer where
  generation : Nat
  due : Nat
  deriving DecidableEq, Repr

/-- A batch on its way to the handler that was registered when it was taken from the queue. -/
structure Delivery (η : Type) where
  handler : η
  batch : EventBatch
  deriving DecidableEq, Repr

structure Batcher (η : Type) where
  /-- How long no event may come before the queued ones are handed over. -/
  window : Nat
  pending : List WatchEvent := []
  timer : Option Timer := none
  generation : Nat := 0
  handler : Option η := none
  deriving DecidableEq, Repr

namespace Batcher

variable {η : Type}

def pendingCount (batcher : Batcher η) : Nat :=
  batcher.pending.length

def isArmed (batcher : Batcher η) : Bool :=
  batcher.timer.isSome

def onBatch (batcher : Batcher η) (handler : η) : Batcher η :=
  { batcher with handler := some handler }

def put (pending : List WatchEvent) (event : WatchEvent) : List WatchEvent :=
  (pending.filter fun queued => !queued.path.same event.path) ++ [event]

def disarm (batcher : Batcher η) : Batcher η :=
  { batcher with generation := batcher.generation + 1, timer := none }

def arm (batcher : Batcher η) (now : Nat) : Batcher η :=
  let disarmed := batcher.disarm
  { disarmed with timer := some ⟨disarmed.generation, now + batcher.window⟩ }

def enqueue (batcher : Batcher η) (now : Nat) (event : WatchEvent) : Batcher η :=
  { batcher with pending := put batcher.pending event }.arm now

/-- Empties the queue.  Nothing is delivered if it was empty, and the events are lost if there
is no handler. -/
def drain (batcher : Batcher η) : Option (Delivery η) × Batcher η :=
  let delivery :=
    if batcher.pending.isEmpty then none
    else batcher.handler.map fun handler =>
      ⟨handler, ⟨batcher.pending.mergeSort WatchEvent.le⟩⟩
  (delivery, { batcher with pending := [] })

def flush (batcher : Batcher η) : Option (Delivery η) × Batcher η :=
  batcher.disarm.drain

def wake (batcher : Batcher η) (generation : Nat) : Option (Delivery η) × Batcher η :=
  if generation = batcher.generation then { batcher with timer := none }.drain
  else (none, batcher)

def clear (batcher : Batcher η) : Batcher η :=
  { batcher.disarm with pending := [] }

end Batcher

end Scrutiny
