import Scrutiny.Analysis.Error
import Scrutiny.Detect.Scope
import Scrutiny.Text.Matcher
import Scrutiny.Tree.Basic

/-!
Packages to avoid.  Rules come from a table of dated packages and from sentences in a project's
rule documents; those that say what to avoid are enforced against import statements, the others
are only listed.
-/

namespace Scrutiny

inductive RuleKind
  | avoid (alternative : Option String)
  | prefer (rival : String)
  | always
  deriving DecidableEq, Repr

structure MinedRule where
  kind : RuleKind
  pattern : String
  source : Path
  line : Nat
  deriving DecidableEq, Repr

namespace MinedRule

def isAvoid (rule : MinedRule) : Bool :=
  match rule.kind with
  | .avoid _ => true
  | _ => false

def kindLabel (rule : MinedRule) : String :=
  match rule.kind with
  | .avoid _ => "avoid"
  | .prefer _ => "prefer"
  | .always => "require"

def other? (rule : MinedRule) : Option String :=
  match rule.kind with
  | .avoid alternative => alternative
  | .prefer rival => some rival
  | .always => none

def text (rule : MinedRule) : String :=
  let demand :=
    match rule.kind with
    | .avoid (some alternative) => s!"avoid {rule.pattern} (use {alternative})"
    | .avoid none => s!"avoid {rule.pattern}"
    | .prefer rival => s!"prefer {rule.pattern} over {rival}"
    | .always => s!"always use {rule.pattern}"
  s!"{demand} [{rule.source.text}:{rule.line}]"

end MinedRule

/-- Why the pattern for a package is refused, if it is.  Engines bound how large a pattern may
become, so that they do not build the pattern for every name. -/
structure PatternEngine where
  refusal? : String → Option String := fun _ => none

namespace Rules

open Text Matcher

/-! ## Sentences -/

def token : Matcher (List Char) :=
  matched <| either
    (do
      literal "`"
      let span ← run 1 fun c => c != '`'
      literal "`"
      pure span)
    (run 1 fun c => isWordChar c || c == '@' || c == '.' || c == '/' || c == '-')

def wordThenBlanks (text : String) : Matcher Unit := do
  word text
  let _ ← someBlanks
  pure ()

def insteadOf : Matcher (List Char × List Char) := do
  wordBoundary
  wordThenBlanks "use"
  let wanted ← token
  let _ ← someBlanks
  wordThenBlanks "instead"
  wordThenBlanks "of"
  let avoided ← token
  pure (wanted, avoided)

def neverUse : Matcher (List Char) := do
  wordBoundary
  anyOf [
    do
      word "don"
      let _ ← optional (char fun c => c == '’' || c == '\'')
      wordThenBlanks "t",
    do
      wordThenBlanks "do"
      wordThenBlanks "not",
    wordThenBlanks "never"]
  wordThenBlanks "use"
  token

def preferOver : Matcher (List Char × List Char) := do
  wordBoundary
  wordThenBlanks "prefer"
  let preferred ← token
  let _ ← someBlanks
  wordThenBlanks "over"
  let other ← token
  pure (preferred, other)

def alwaysUse : Matcher (List Char) := do
  wordBoundary
  wordThenBlanks "always"
  wordThenBlanks "use"
  token

def cleanToken (raw : List Char) : List Char :=
  let bare := ((raw.dropWhile (· == '`')).reverse.dropWhile (· == '`')).reverse
  (bare.reverse.dropWhile fun c => ".,;:!?)".toList.contains c).reverse

def demands (line : List Char) : List (RuleKind × List Char) :=
  let clean (raw : List Char) : String := String.ofList (cleanToken raw)
  (insteadOf.findAll line).map (fun hit => (.avoid (some (clean hit.value.1)), hit.value.2)) ++
    (neverUse.findAll line).map (fun hit => (.avoid none, hit.value)) ++
    (preferOver.findAll line).map (fun hit => (.prefer (clean hit.value.2), hit.value.1)) ++
    (alwaysUse.findAll line).map (fun hit => (.always, hit.value))

def mineLine (source : Path) (number : Nat) (line : List Char) : List MinedRule :=
  (demands line).filterMap fun (kind, raw) =>
    let pattern := cleanToken raw
    if pattern.isEmpty then none else some ⟨kind, String.ofList pattern, source, number⟩

def mine (source : Path) (text : String) : List MinedRule :=
  (numbered (lines text.toList)).flatMap fun (number, line) => mineLine source number line

/-! ## Import statements -/

def isQuote (c : Char) : Bool :=
  c == '\'' || c == '"'

/-- Whether a text between a keyword and a quote is a clause: it begins with a blank and ends with
the word `from` between blanks, which are not all the same one. -/
def isClause (text : List Char) : Bool :=
  let back := text.reverse
  let front := (back.dropWhile isBlank).drop 4
  back.head?.any isBlank && "morf".toList.isPrefixOf (back.dropWhile isBlank) &&
    front.head?.any isBlank && 2 ≤ front.length && text.head?.any isBlank

/-- A keyword and the text up to the next quote, which satisfies a condition.  No semicolon may
stand in between. -/
def keywordThen (keyword : String) (holds : List Char → Bool) : Matcher Unit := do
  wordBoundary
  literal keyword
  let between ← run 1 fun c => !isQuote c && c != ';'
  assert fun _ => holds between

def callOf (name : String) : Matcher Unit := do
  wordBoundary
  literal name
  let _ ← blanks
  literal "("
  let _ ← blanks
  pure ()

def importStart : Matcher Unit :=
  anyOf [
    keywordThen "import" fun between => isBlankText between || isClause between,
    keywordThen "export" isClause,
    callOf "require",
    callOf "import"]

/-- A statement that imports a package, or something of it after a slash or a dot. -/
def importOf (package : String) : Matcher Unit := do
  importStart
  let _ ← char isQuote
  literal package
  let _ ← optional do
    let _ ← char fun c => c == '/' || c == '.'
    run 0 fun c => !isQuote c
  let _ ← char isQuote
  pure ()

def importLine? (package : String) (content : List Char) : Option Nat :=
  ((importOf package).find? content).map fun hit => lineAt content hit.start.offset

/-! ## Rule sets -/

def substitutions : List (String × String) := [
  ("moment", "Intl.DateTimeFormat / date-fns"),
  ("lodash", "native array and object methods"),
  ("underscore", "native array and object methods"),
  ("request", "fetch"),
  ("node-fetch", "the built-in fetch"),
  ("jquery", "native DOM APIs"),
  ("bluebird", "native Promise"),
  ("left-pad", "String.prototype.padStart"),
  ("uuid", "crypto.randomUUID()"),
  ("querystring", "URLSearchParams")]

def mineAll (documents : List (Path × String)) : List MinedRule :=
  documents.flatMap fun (path, text) => mine path text

/-- Of the rules that say what to avoid, the first for each package. -/
def enforced (mined : List MinedRule) : List MinedRule :=
  go [] mined
where
  go (seen : List String) : List MinedRule → List MinedRule
    | [] => []
    | rule :: rules =>
        if rule.isAvoid && !seen.contains rule.pattern then rule :: go (rule.pattern :: seen) rules
        else go seen rules

def informational (mined : List MinedRule) : List MinedRule :=
  mined.filter fun rule => !rule.isAvoid

def documents (tree : Tree) (root : Path) (config : AnalysisConfig) : List (Path × String) :=
  config.ruleDocuments.filterMap fun path =>
    (tree.readText? (root.join path)).map fun text => (path, text)

def load (tree : Tree) (root : Path) (config : AnalysisConfig) : List MinedRule :=
  mineAll (documents tree root config)

/-- The first pattern that an engine refuses.  Those of the table are built before those of the
rules. -/
def refused? (engine : PatternEngine) (mined : List MinedRule) : Option AnalysisError :=
  (substitutions.findSome? fun (package, _) =>
      (engine.refusal? package).map (.pattern package)).or <|
    (enforced mined).findSome? fun rule =>
      (engine.refusal? rule.pattern).map (.pattern s!"avoid rule '{rule.pattern}'")

/-- Rules are put in force all together, or not at all if one pattern is refused. -/
def build (engine : PatternEngine) (mined : List MinedRule) :
    Except AnalysisError (List MinedRule) :=
  match refused? engine mined with
  | some error => .error error
  | none => .ok mined

/-! ## Checking -/

def datedFinding (path : Path) (package alternative : String) (line : Nat) : Finding where
  category := .simplify
  subject := s!"replace {package} with {alternative}"
  description := s!"{path.text} imports {package}. Prefer {alternative}."
  files := [path]
  location := some (lineLocation path line)
  severity := .low

def violation (path : Path) (rule : MinedRule) (line : Nat) : Finding :=
  let main := s!"{path.text} imports {rule.pattern}, which {rule.source.text}:{rule.line} says to avoid."
  { category := .simplify
    subject := s!"avoid {rule.pattern} (per {rule.source.text})"
    description :=
      match rule.kind with
      | .avoid (some alternative) => main ++ s!" Use {alternative} instead."
      | _ => main
    files := [path]
    location := some (lineLocation path line)
    severity := .medium }

/-- At most one finding for the table, then one for each enforced rule that the file breaks. -/
def checkFile (mined : List MinedRule) (file : SourceFile) : List Finding :=
  let content := file.content.toList
  let dated := substitutions.findSome? fun (package, alternative) =>
    (importLine? package content).map (datedFinding file.path package alternative)
  dated.toList ++
    (enforced mined).filterMap fun rule =>
      (importLine? rule.pattern content).map (violation file.path rule)

def detectWith (engine : PatternEngine) (mined : List MinedRule) (scope : Scope) :
    Except AnalysisError Detection :=
  (build engine mined).map fun mined =>
    .ofFiles (scope.targets.filter fun file => file.path.isSource) (checkFile mined)

def detect (engine : PatternEngine) (tree : Tree) (scope : Scope) :
    Except AnalysisError Detection :=
  detectWith engine (load tree scope.root scope.config) scope

end Rules

end Scrutiny
