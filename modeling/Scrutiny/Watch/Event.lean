import Scrutiny.SourceFile

/-!
Changes to the files of a watched project, and batches of them.
-/

namespace Scrutiny

inductive EventKind
  | add
  | change
  | unlink
  deriving DecidableEq, Repr

namespace EventKind

def all : List EventKind := [add, change, unlink]

def label : EventKind → String
  | add => "add"
  | change => "change"
  | unlink => "unlink"

def ofLabel? (label : String) : Option EventKind :=
  all.find? fun kind => kind.label == label

end EventKind

structure WatchEvent where
  kind : EventKind
  path : Path
  /-- A logical time, which orders the events of a batch. -/
  timestamp : Nat := 0
  deriving DecidableEq, Repr

namespace WatchEvent

def isUnlink (event : WatchEvent) : Bool :=
  event.kind = .unlink

/-- Earlier events come first, and those of one time in the order of their paths. -/
def order (a b : WatchEvent) : Ordering :=
  (compare a.timestamp b.timestamp).then (a.path.order b.path)

def le (a b : WatchEvent) : Bool :=
  (a.order b).isLE

end WatchEvent

structure EventCounts where
  added : Nat := 0
  changed : Nat := 0
  removed : Nat := 0
  deriving DecidableEq, Repr

namespace EventCounts

def count (counts : EventCounts) (event : WatchEvent) : EventCounts :=
  match event.kind with
  | .add => { counts with added := counts.added + 1 }
  | .change => { counts with changed := counts.changed + 1 }
  | .unlink => { counts with removed := counts.removed + 1 }

def total (counts : EventCounts) : Nat :=
  counts.added + counts.changed + counts.removed

end EventCounts

structure EventBatch where
  events : List WatchEvent
  deriving DecidableEq, Repr

namespace EventBatch

def size (batch : EventBatch) : Nat :=
  batch.events.length

def isEmpty (batch : EventBatch) : Bool :=
  batch.events.isEmpty

def livePaths (batch : EventBatch) : List Path :=
  (batch.events.filter fun event => !event.isUnlink).map WatchEvent.path

def counts (batch : EventBatch) : EventCounts :=
  batch.events.foldl EventCounts.count {}

end EventBatch

end Scrutiny
