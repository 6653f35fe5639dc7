import Scrutiny.Watch.Event

/-!
What a change calls for.  Only the event's kind and path decide, and the first rule that fits.
-/

namespace Scrutiny

def manifestNames : List String :=
  ["package.json", "package-lock.json", "yarn.lock", "pnpm-lock.yaml", "bun.lockb",
    "tsconfig.json", "Cargo.toml", "Cargo.lock", "go.mod", "go.sum", "requirements.txt",
    "pyproject.toml", "poetry.lock", "Gemfile", "Gemfile.lock", "composer.json",
    "composer.lock"]

def Path.isManifest (path : Path) : Bool :=
  path.fileName?.any fun name => manifestNames.contains name

inductive ChangeAction
  | removed
  | configChanged
  | docsChanged
  | checkRules
  /-- A new source file may lack tests. -/
  | suggestTest
  | nothing
  deriving DecidableEq, Repr

def ChangeAction.label : ChangeAction → String
  | removed => "removed"
  | configChanged => "config-changed"
  | docsChanged => "docs-changed"
  | checkRules => "check-rules"
  | suggestTest => "suggest-test"
  | nothing => "nothing"

structure Classification where
  action : ChangeAction
  details : String
  deriving DecidableEq, Repr

def WatchEvent.classify (event : WatchEvent) : Classification :=
  let path := event.path
  if event.isUnlink then ⟨.removed, s!"{path.text} removed"⟩
  else if path.isManifest then
    ⟨.configChanged, s!"{path.fileName} changed, dependencies may differ"⟩
  else if path.extension? == some "md" then
    ⟨.docsChanged,
      if event.kind = .add then "documentation added" else "documentation changed"⟩
  else if path.isTest then ⟨.checkRules, s!"test file {path.text} updated"⟩
  else if path.isSource then
    if event.kind = .add then ⟨.suggestTest, s!"new source file {path.text}"⟩
    else ⟨.checkRules, s!"{path.text} modified"⟩
  else ⟨.nothing, ""⟩

end Scrutiny
