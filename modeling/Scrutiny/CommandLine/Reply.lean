import Scrutiny.CommandLine.Invocation
import Scrutiny.Config.File
import Scrutiny.Watch.Session

/-!
Carrying out commands.  A command changes the state files in the tree and gives a reply: an
exit code, a text for standard output and, if it failed, why.
-/

namespace Scrutiny

inductive CommandError
  | notDirectory (path : Path)
  | config (error : ConfigError)
  | analysis (error : AnalysisError)
  | write (error : WriteError)
  | watch (error : WatchError)
  | unknownId (id : String)
  deriving DecidableEq, Repr

def CommandError.message : CommandError → String
  | notDirectory path => s!"Path is not a directory: {path.text}"
  | config _ => "Failed to load .critique/config.json"
  | analysis error => error.message
  | write error => error.message
  | watch error => error.message
  | unknownId id => s!"No criticism with id {id}"

structure Reply where
  exit : Nat := 0
  stdout : String := ""
  error : Option CommandError := none
  deriving DecidableEq, Repr

def linesText (lines : List String) : String :=
  String.join (lines.map fun line => line ++ "\n")

def padEnd (width : Nat) (text : String) : String :=
  text ++ String.ofList (List.replicate (width - text.length) ' ')

/-! ## What commands show -/

namespace AnalysisReport

def page (report : AnalysisReport) (pending : Nat) : String :=
  linesText [
    "",
    "Analysis Summary",
    "================",
    "",
    s!"Files read:          {report.stats.filesRead}",
    s!"  Unreadable:        {report.stats.readErrors}",
    s!"Duplicated blocks:   {report.stats.clones}",
    s!"Hardcoded secrets:   {report.stats.secrets}",
    s!"Rule violations:     {report.stats.ruleViolations}",
    s!"Unused imports:      {report.stats.unusedImports}",
    "",
    report.summary,
    s!"Pending criticisms:  {pending}"
  ]

end AnalysisReport

namespace Criticism

def rows (criticism : Criticism) : List String :=
  let category := padEnd 8 criticism.category.label
  let severity := padEnd 6 criticism.severity.label
  let status := padEnd 8 criticism.status.label
  [s!"{criticism.id}  {category} {severity} {status} {criticism.subject}",
    s!"    {criticism.displayLocation}"]

end Criticism

namespace Worklist

def chosen (worklist : Worklist) (category : Option Category) (all : Bool) : List Criticism :=
  worklist.criticisms.filter fun criticism =>
    (all || criticism.status.isPending) &&
      category.all fun category => criticism.category = category

def jsonPage (criticisms : List Criticism) : String :=
  linesText [(Json.array (criticisms.map Criticism.toJson)).pretty]

def page (worklist : Worklist) (criticisms : List Criticism) : String :=
  if criticisms.isEmpty then linesText ["No criticisms."]
  else
    let last :=
      match worklist.lastAnalysis with
      | some instant => ["", s!"Last analysis: {instant.offsetText}"]
      | none => []
    linesText (criticisms.flatMap Criticism.rows ++ last)

end Worklist

namespace Rules

def sectionLines (heading : String) (lines : List String) : List String :=
  let underline := String.ofList (List.replicate heading.length '=')
  let shown := if lines.isEmpty then ["(none)"] else lines
  heading :: underline :: shown.map fun line => s!"  {line}"

def page (mined : List MinedRule) : String :=
  let substitution (pair : String × String) : String := s!"{padEnd 12 pair.1} -> {pair.2}"
  linesText <|
    sectionLines "Built-in substitutions" (substitutions.map substitution) ++ [""] ++
    sectionLines "Enforced project rules" ((enforced mined).map MinedRule.text) ++ [""] ++
    sectionLines "Informational rules" ((informational mined).map MinedRule.text)

end Rules

def Verb.done : Verb → String
  | accept => "Accepted"
  | reject => "Rejected"
  | skip => "Skipped"

/-! ## Carrying out -/

abbrev CommandStep (α : Type) : Type :=
  TreeStep CommandError α

namespace CommandStep

def ofExcept {ε α : Type} (wrap : ε → CommandError) (result : Except ε α) : CommandStep α :=
  match result with
  | .ok value => pure value
  | .error error => throw (wrap error)

end CommandStep

structure Project where
  root : Path
  config : Config
  engine : PatternEngine := {}

namespace Project

def open? (tree : Tree) (path : Path) (engine : PatternEngine := {}) :
    Except CommandError Project :=
  match tree.dirNames? path with
  | none => .error (.notDirectory path)
  | some names =>
      let root := Path.ofNames names
      match Config.load tree root with
      | .ok config => .ok { root, config, engine }
      | .error error => .error (.config error)

def files (project : Project) : StateFiles :=
  project.config.state.files project.root

def analyzer (project : Project) (tree : Tree) : Except CommandError Analyzer :=
  (Analyzer.open? tree project.root project.config [] project.engine).mapError .analysis

def analyze (project : Project) (now : Instant) : CommandStep String := do
  let analyzer ← CommandStep.ofExcept id (project.analyzer (← get))
  let report ← (analyzer.analyzeProject now).adapt .analysis
  pure (report.page (project.files.worklist.load (← get)).pending.length)

def list (project : Project) (category : Option Category) (all json : Bool) :
    CommandStep String := do
  let worklist := project.files.worklist.load (← get)
  let criticisms := worklist.chosen category all
  pure (if json then Worklist.jsonPage criticisms else worklist.page criticisms)

def review (project : Project) (today : Date) (verb : Verb) (id : String)
    (reason : Option String) : CommandStep String := do
  match ← (Scrutiny.review project.files today verb id reason).adapt .write with
  | .updated criticism =>
      pure (linesText [s!"{verb.done} {criticism.id}: {criticism.subject}"])
  | .unchanged => pure (linesText [s!"{id} cannot be moved to that status"])
  | .notFound => throw (.unknownId id)

def rules (project : Project) : CommandStep String := do
  let mined := Rules.load (← get) project.root project.config.analysis
  return Rules.page (← CommandStep.ofExcept .analysis (Rules.build project.engine mined))

def watch (project : Project) (now : Instant) : CommandStep (List SessionNote × Session) := do
  let analyzer ← CommandStep.ofExcept id (project.analyzer (← get))
  let report ← (analyzer.analyzeProject now).adapt .analysis
  let filter := PathFilter.ofConfig project.config.watch
  let watcher ←
    CommandStep.ofExcept .watch
      (Watcher.start (← get) project.root project.config.watch filter.accepts)
  pure ([.analysed report.summary], ⟨analyzer, watcher⟩)

end Project

namespace Invocation

/-- Carries out a command and gives the text that it shows.  Watching shows none. -/
def perform (invocation : Invocation) (now : Instant) (today : Date)
    (engine : PatternEngine := {}) : CommandStep String := do
  match invocation.command with
  | .identify category subject files =>
      pure (linesText [Identity.of category subject files])
  | command =>
      let project ← CommandStep.ofExcept id (Project.open? (← get) invocation.path engine)
      match command with
      | .analyze => project.analyze now
      | .watch => do
          let _ ← project.watch now
          pure ""
      | .list category all json => project.list category all json
      | .review verb id reason => project.review today verb id reason
      | .rules => project.rules
      | .identify _ _ _ => pure ""

end Invocation

def Refusal.reply : Refusal → Reply
  | invalid => { exit := 2 }
  | helpAsked => {}
  | versionAsked name => { stdout := linesText [s!"{name} {programVersion}"] }

def Invocation.reply (invocation : Invocation) (now : Instant) (today : Date)
    (engine : PatternEngine := {}) : StateM Tree Reply := do
  match ← (invocation.perform now today engine).run with
  | .ok stdout => pure { stdout }
  | .error error => pure { exit := 1, error := some error }

/-- Carries out a command line.  The working directory is the project if no other is named. -/
def replyTo (arguments : List String) (now : Instant) (today : Date)
    (engine : PatternEngine := {}) : StateM Tree Reply :=
  match Invocation.parse ⟨"."⟩ arguments with
  | .error refusal => pure refusal.reply
  | .ok invocation => invocation.reply now today engine

end Scrutiny
