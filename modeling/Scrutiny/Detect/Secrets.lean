import Scrutiny.Detect.Scope
import Scrutiny.Text.Matcher

/-!
Hardcoded credentials.  Each line is given to the patterns of a table in order, and the first
that matches it claims it.  A pattern makes one finding in a file, which shows the beginning of
its first match and lists the other lines.  Lines that look like placeholders are left out, and
so are files that hold false credentials by convention.
-/

namespace Scrutiny.Secrets

open Text Matcher

/-! ## Patterns -/

structure Pattern where
  name : String
  matcher : Matcher Unit
  severity : Severity

@[inline] def isOneOf (set : String) (c : Char) : Bool :=
  set.toList.contains c

def isUpper (c : Char) : Bool :=
  'A' ≤ c && c ≤ 'Z'

def isKeyChar (c : Char) : Bool :=
  isAsciiAlphanumeric c || c == '_' || c == '-'

def anyCase (accepts : Char → Bool) (c : Char) : Bool :=
  accepts (foldCase c)

def quoteMark : Matcher Char :=
  char (isOneOf "\"'")

def only {α : Type} (matcher : Matcher α) : Matcher Unit := do
  let _ ← matcher
  pure ()

def optionally {α : Type} (matcher : Matcher α) : Matcher Unit :=
  only (optional matcher)

def many (least : Nat) (accepts : Char → Bool) : Matcher Unit :=
  only (run least accepts)

/-- What stands between a name and its quoted value, the opening quote included. -/
def assignment : Matcher Unit := do
  optionally quoteMark
  many 0 isBlank
  only (char (isOneOf ":="))
  many 0 isBlank
  only quoteMark

def wordPair (first second : String) : Matcher Unit := do
  word first
  optionally (char (isOneOf "_-"))
  word second

def literalWith (text more : String) : Matcher Unit := do
  literal text
  optionally (literal more)

def anthropicKey : Matcher Unit := do
  literal "sk-ant-"
  many 20 isKeyChar

def openaiKey : Matcher Unit := do
  wordBoundary
  literalWith "sk-" "proj-"
  many 32 isAsciiAlphanumeric

def awsKey : Matcher Unit := do
  wordBoundary
  anyOf [literal "AKIA", literal "ASIA"]
  only (exactly 16 fun c => isAsciiDigit c || isUpper c)
  wordBoundary

def githubToken : Matcher Unit := do
  wordBoundary
  either
    (do
      literal "gh"
      only (char (isOneOf "pousr"))
      literal "_"
      many 36 isAsciiAlphanumeric)
    (do
      literal "github_pat_"
      many 22 fun c => isAsciiAlphanumeric c || c == '_')

def stripeKey : Matcher Unit := do
  wordBoundary
  only (char (isOneOf "sr"))
  literal "k_live_"
  many 24 isAsciiAlphanumeric

def slackToken : Matcher Unit := do
  wordBoundary
  literal "xox"
  only (char (isOneOf "baprs"))
  literal "-"
  many 10 fun c => isAsciiAlphanumeric c || c == '-'

def googleKey : Matcher Unit := do
  wordBoundary
  literal "AIza"
  only (exactly 35 isKeyChar)

/-- The heading of a private key, with or without a kind in capitals. -/
def privateKey : Matcher Unit := do
  literal "-----BEGIN "
  either
    (literal "PRIVATE KEY-----")
    (do
      many 1 isUpper
      literal " PRIVATE KEY-----")

def webToken : Matcher Unit := do
  wordBoundary
  literal "eyJ"
  many 10 isKeyChar
  literal "."
  many 10 isKeyChar
  literal "."
  many 10 isKeyChar

def bearerToken : Matcher Unit := do
  wordBoundary
  word "bearer"
  many 1 isBlank
  many 20 (anyCase fun c => isAsciiAlphanumeric c || isOneOf "-._~+/" c)
  many 0 fun c => c == '='

def databaseUrl : Matcher Unit := do
  wordBoundary
  anyOf [literalWith "postgres" "ql", literal "mysql", literal "mariadb",
    literalWith "mongodb" "+srv", literal "redis", literalWith "amqp" "s"]
  literal "://"
  many 1 fun c => !isBlank c && !isOneOf ":/@'\"" c
  literal ":"
  many 1 fun c => !isBlank c && !isOneOf "@'\"" c
  literal "@"
  many 1 fun c => !isBlank c && !isOneOf "'\"" c

def apiKey : Matcher Unit := do
  wordBoundary
  anyOf [wordPair "api" "key", wordPair "secret" "key", wordPair "access" "token",
    wordPair "auth" "token", wordPair "client" "secret"]
  wordBoundary
  assignment
  many 16 (anyCase fun c => isAsciiAlphanumeric c || isOneOf "_-./+=" c)
  only quoteMark

def password : Matcher Unit := do
  wordBoundary
  anyOf [word "password", word "passwd", word "pwd"]
  wordBoundary
  assignment
  many 8 fun c => !isBlank c && !isOneOf "\"'" c
  only quoteMark

/-- The patterns in the order in which they claim lines. -/
def patterns : List Pattern := [
  ⟨"Anthropic API key", anthropicKey, .high⟩,
  ⟨"OpenAI API key", openaiKey, .high⟩,
  ⟨"AWS access key", awsKey, .high⟩,
  ⟨"GitHub token", githubToken, .high⟩,
  ⟨"Stripe live key", stripeKey, .high⟩,
  ⟨"Slack token", slackToken, .high⟩,
  ⟨"Google API key", googleKey, .high⟩,
  ⟨"private key", privateKey, .high⟩,
  ⟨"JWT", webToken, .medium⟩,
  ⟨"bearer token", bearerToken, .medium⟩,
  ⟨"database URL with credentials", databaseUrl, .high⟩,
  ⟨"API key", apiKey, .medium⟩,
  ⟨"password", password, .medium⟩]

/-! ## What is left out -/

def placeholderMarks : List String :=
  ["xxx", "your-", "your_", "example", "placeholder", "$\x7b", "\x7b\x7b", "process.env",
    "import.meta.env", "os.environ", "getenv", "env::var"]

def angleSpan : Matcher Unit := do
  literal "<"
  many 1 fun c => !isBlank c && !isOneOf "<>" c
  literal ">"

/-- The line is a placeholder.  Marks count in any letter case; no letter outside ASCII has a
lower-case form in which a mark could occur. -/
def isPlaceholder (line : List Char) : Bool :=
  let lower := line.map lowerAscii
  placeholderMarks.any (fun mark => occursIn mark.toList lower) || (angleSpan.find? line).isSome

def lockFiles : List String :=
  ["package-lock.json", "npm-shrinkwrap.json", "yarn.lock", "pnpm-lock.yaml", "bun.lockb",
    "Cargo.lock", "poetry.lock", "Pipfile.lock", "Gemfile.lock", "composer.lock", "go.sum"]

def fixtureDirs : List String :=
  ["fixtures", "__fixtures__", "__mocks__", "mocks", "testdata"]

/-- The one file that spells credentials out to look for them. -/
def patternSource : List String :=
  ["cq-analyzers", "src", "secrets.rs"]

def isExempt (path : Path) : Bool :=
  lockFiles.contains path.fileName ||
    (path.nameStartsWith ".env." &&
      [".example", ".sample", ".template"].any path.nameEndsWith) ||
    path.nameEndsWith ".example" || path.nameHas ".mock." || path.isTest ||
    fixtureDirs.any path.hasComponent || path.endsWith patternSource

/-! ## Scanning -/

structure Hit where
  line : Nat
  pattern : Pattern
  matched : List Char

def claim? (number : Nat) (line : List Char) : Option Hit :=
  if isPlaceholder line then none
  else
    patterns.findSome? fun pattern =>
      (pattern.matcher.find? line).map fun found => ⟨number, pattern, found.text⟩

def hits (content : String) : List Hit :=
  (numbered (lines content.toList)).filterMap fun (number, line) => claim? number line

def firstHits (seen : List String) : List Hit → List Hit
  | [] => []
  | hit :: rest =>
      if seen.contains hit.pattern.name then firstHits seen rest
      else hit :: firstHits (hit.pattern.name :: seen) rest

def furtherLines (pattern : Pattern) (hits : List Hit) : List Nat :=
  ((hits.filter fun hit => hit.pattern.name == pattern.name).drop 1).map Hit.line

def grouped (hits : List Hit) : List (Hit × List Nat) :=
  (firstHits [] hits).map fun hit => (hit, furtherLines hit.pattern hits)

def previewLength : Nat := 20

def preview (matched : List Char) : String :=
  String.ofList (matched.take previewLength) ++ "..."

def finding (path : Path) (hit : Hit) (others : List Nat) : Finding :=
  let shown := preview hit.matched
  let main := s!"Possible {hit.pattern.name} hardcoded at {path.text}:{hit.line} ({shown}). " ++
    "Move it to an environment variable or a secret manager and rotate it."
  { category := .elim
    subject := s!"hardcoded {hit.pattern.name}"
    description :=
      if others.isEmpty then main
      else main ++ " Also on lines " ++ joinWith ", " (others.map toString) ++ "."
    files := [path]
    location := some (lineLocation path hit.line)
    severity := hit.pattern.severity }

def scanFile (file : SourceFile) : List Finding :=
  if isExempt file.path then []
  else (grouped (hits file.content)).map fun (hit, others) => finding file.path hit others

def detect (scope : Scope) : Detection :=
  .ofFiles scope.targets scanFile

end Scrutiny.Secrets
