import Scrutiny.Detect.Scope
import Scrutiny.Tree.Walk
import Scrutiny.Watch.Event
import Scrutiny.Watch.Filter

/-!
Watching a project.  A watcher starts from the files that exist, and turns each notice that
something happened to a path into at most one event: `unlink` if there is nothing any more,
`add` if the file was not known, and `change` if it was.
-/

namespace Scrutiny

inductive WatchError
  | rootNotFound (path : Path)
  | unresolved (path : Path) (reason : String)
  | unavailable (reason : String)
  deriving DecidableEq, Repr

namespace WatchError

def message : WatchError → String
  | rootNotFound path => s!"project root does not exist: {path.text}"
  | unresolved path reason => s!"failed to resolve project root {path.text}: {reason}"
  | unavailable reason => s!"file notifications unavailable: {reason}"

def isRecoverable : WatchError → Bool
  | unavailable _ => true
  | _ => false

def isFatal (error : WatchError) : Bool :=
  !error.isRecoverable

def path? : WatchError → Option Path
  | rootNotFound path => some path
  | unresolved path _ => some path
  | unavailable _ => none

end WatchError

inductive Sighting
  | missing
  | directory
  | file
  deriving DecidableEq, Repr

def Tree.sight (tree : Tree) (path : Path) : Sighting :=
  match tree.node? path with
  | none => .missing
  | some node => if node.isDir then .directory else .file

structure Watcher where
  root : Path
  accepts : Path → Bool
  seen : PathSet
  isStopped : Bool := false

namespace Watcher

def seenCount (watcher : Watcher) : Nat :=
  watcher.seen.paths.length

def hasSeen (watcher : Watcher) (path : Path) : Bool :=
  watcher.seen.contains path

def isLive (watcher : Watcher) : Bool :=
  !watcher.isStopped

/-! ## Starting -/

mutual

/-- The files below an entry with the names `here`, at most `depth` directories down, outside
directories with an ignored name. -/
def scanNode (ignoredDirs : List String) (depth : Option Nat) (here : List String) :
    Node → List (List String)
  | .file _ => [here]
  | .link _ => []
  | .dir entries =>
      if depth = some 0 || here.getLast?.any fun name => ignoredDirs.contains name then []
      else scanEntries ignoredDirs (depth.map (· - 1)) here entries

def scanEntries (ignoredDirs : List String) (depth : Option Nat) (here : List String) :
    List (String × Node) → List (List String)
  | [] => []
  | (name, node) :: entries =>
      scanNode ignoredDirs depth (here ++ [name]) node ++
        scanEntries ignoredDirs depth here entries

end

def scan (config : WatchConfig) (root : Node) : List Path :=
  let depth := if config.recursive then none else some 0
  match root with
  | .dir entries => (scanEntries config.ignoredDirs depth [] entries).map Tree.pathOf
  | node => (scanNode config.ignoredDirs depth [] node).map Tree.pathOf

/-- Starts watching.  The files that exist are seen without an event. -/
def start (tree : Tree) (root : Path) (config : WatchConfig) (accepts : Path → Bool) :
    Except WatchError Watcher :=
  match tree.place true root with
  | .ok (.found names node) =>
      .ok {
        root := .ofNames names
        accepts := accepts
        seen := .ofList ((scan config node).filter accepts)
      }
  | _ => .error (.rootNotFound root)

/-! ## Notices -/

def observe (seen : PathSet) (path : Path) (here : Bool) : EventKind × PathSet :=
  if !here then (.unlink, ⟨seen.paths.filter fun member => !member.same path⟩)
  else if seen.contains path then (.change, seen)
  else (.add, seen.insert path)

/-- Takes notice of what is found at an absolute path.  Notices of directories, of paths that
are not reported and of those outside the project mean nothing. -/
def notice (watcher : Watcher) (path : Path) (sighting : Sighting) (timestamp : Nat) :
    Option WatchEvent × Watcher :=
  match watcher.root.stripBase? path with
  | none => (none, watcher)
  | some relative =>
      if relative.text.isEmpty || !watcher.accepts relative || sighting = .directory ||
          watcher.isStopped then (none, watcher)
      else
        let (kind, seen) := observe watcher.seen relative (sighting = .file)
        (some ⟨kind, relative, timestamp⟩, { watcher with seen })

def stop (watcher : Watcher) : Watcher :=
  { watcher with isStopped := true }

end Watcher

end Scrutiny
