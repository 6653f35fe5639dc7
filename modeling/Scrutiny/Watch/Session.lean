import Scrutiny.Analysis.Run
import Scrutiny.Watch.Batcher
import Scrutiny.Watch.Classification
import Scrutiny.Watch.Watcher

/-!
Watching sessions: the project is analysed once, and then again for each batch of changes.  A
changed rule document sends the whole project back to analysis; any other batch only its files.
-/

namespace Scrutiny

/-! ## What a batch calls for -/

structure BatchPlan where
  isWhole : Bool
  changed : List Path
  untested : List Path
  deriving DecidableEq, Repr

namespace BatchPlan

def changesRules (ruleDocuments : List Path) (event : WatchEvent) : Bool :=
  event.classify.action = .docsChanged && ruleDocuments.any event.path.same

def ofBatch (ruleDocuments : List Path) (batch : EventBatch) : BatchPlan where
  isWhole := batch.events.any (changesRules ruleDocuments)
  changed := batch.livePaths
  untested :=
    (batch.events.filter fun event => event.classify.action = .suggestTest).map WatchEvent.path

end BatchPlan

/-! ## What a session tells -/

inductive SessionNote
  | analysed (summary : String)
  | settled (counts : EventCounts)
  | classified (classification : Classification) (path : Path)
  | degraded (detector : DegradedDetector)
  | updated (summary : String) (suggestions : Nat)
  | failed (error : AnalysisError)
  | terminated
  | stopped
  deriving DecidableEq, Repr

namespace SessionNote

/-- Characters that could steer a terminal: escape, bell, backspace, form feed, delete, and the
second set of control characters. -/
def steersTerminal (c : Char) : Bool :=
  c == '\x1b' || c == '\x07' || c == '\x08' || c == '\x0c' ||
    (0x7F ≤ c.toNat && c.toNat ≤ 0x9F)

def spelledOut (c : Char) : List Char :=
  let digit (n : Nat) : Char := Nat.digitChar n
  let digits := [digit (c.toNat / 16), digit (c.toNat % 16)]
  if c.toNat < 128 then ['\\', 'x'] ++ digits
  else ['\\', 'u', '\x7b'] ++ digits ++ ['\x7d']

/-- A message as it is logged, with the characters spelled out that could steer a terminal.  The
values of fields stay as they are. -/
def messageText (message : String) : String :=
  mapChars (fun chars => chars.flatMap fun c => if steersTerminal c then spelledOut c else [c])
    message

def text : SessionNote → String
  | analysed summary => s!"INFO Initial analysis complete summary={summary}"
  | settled counts =>
      s!"INFO Changes settled added={counts.added} changed={counts.changed} removed={counts.removed}"
  | classified classification path =>
      let message := messageText classification.details
      s!"INFO {message} action={classification.action.label} path={path.text}"
  | degraded detector =>
      s!"WARN Detector degraded detector={detector.kind.label} error={detector.error.message}"
  | updated summary suggestions =>
      s!"INFO Incremental analysis complete summary={summary} test_suggestions={suggestions}"
  | failed error => s!"ERROR Incremental analysis failed error={error.message}"
  | terminated => "INFO Received SIGTERM, shutting down"
  | stopped => "INFO Stopped watching"

end SessionNote

/-! ## Handling batches -/

namespace Analyzer

def carryOut (analyzer : Analyzer) (now : Instant) (plan : BatchPlan) :
    TreeStep AnalysisError (AnalysisReport × AnalysisReport) := do
  let analysed ←
    if plan.isWhole then analyzer.analyzeProject now
    else analyzer.analyzeChanged now plan.changed
  let suggested ← analyzer.suggestTests now plan.untested
  pure (analysed, suggested)

def handle (analyzer : Analyzer) (now : Instant) (batch : EventBatch) :
    StateM Tree (List SessionNote) := do
  let plan := BatchPlan.ofBatch analyzer.config.ruleDocuments batch
  let heard :=
    .settled batch.counts ::
      batch.events.map fun event => .classified event.classify event.path
  match ← (analyzer.carryOut now plan).run with
  | .ok (analysed, suggested) =>
      pure (heard ++ analysed.degraded.map .degraded ++
        [.updated analysed.summary suggested.stored])
  | .error error => pure (heard ++ [.failed error])

end Analyzer

structure Session where
  analyzer : Analyzer
  watcher : Watcher

namespace Session

/-- Takes notice of an absolute path.  The event that it means, if any, is a batch of its own. -/
def notice (session : Session) (now : Instant) (path : Path) :
    StateM Tree (List SessionNote × Session) := do
  let (event, watcher) := session.watcher.notice path ((← get).sight path) 0
  let notes ←
    match event with
    | some event => session.analyzer.handle now ⟨[event]⟩
    | none => pure []
  pure (notes, { session with watcher })

def close (session : Session) : List SessionNote × Session :=
  ([.terminated, .stopped], { session with watcher := session.watcher.stop })

end Session

end Scrutiny
