import Scrutiny.SourceFile

/-!
Configuration of watching, of analysis, and of where the state is kept.
-/

namespace Scrutiny

def defaultIgnoredDirs : List String :=
  ["node_modules", ".git", "dist", "build", "coverage", "target", ".next", ".nuxt", ".turbo",
    "__pycache__", "vendor", ".critique"]

structure WatchConfig where
  /-- How long changes have to stop before they are handed on. -/
  debounceMs : Nat := 100
  recursive : Bool := true
  extensions : List String := sourceExtensions ++ ["json", "md"]
  ignoredDirs : List String := defaultIgnoredDirs
  deriving DecidableEq, Repr

structure AnalysisConfig where
  cloneWindow : Nat := 6
  /-- The least length of a normalised window that counts. -/
  minCloneChars : Nat := 50
  /-- Documents that rules are read from, relative to the project. -/
  ruleDocuments : List Path := [⟨"CLAUDE.md"⟩, ⟨"AGENTS.md"⟩, ⟨".critique/rules.md"⟩]
  skipDirs : List String := defaultIgnoredDirs
  deriving DecidableEq, Repr

structure StateConfig where
  dir : Path := ⟨".critique"⟩
  criticismsFile : String := "criticisms.json"
  preferencesFile : String := "preferences.md"
  deriving DecidableEq, Repr

namespace StateConfig

def criticismsPath (state : StateConfig) (root : Path) : Path :=
  (root.join state.dir).join ⟨state.criticismsFile⟩

def preferencesPath (state : StateConfig) (root : Path) : Path :=
  (root.join state.dir).join ⟨state.preferencesFile⟩

end StateConfig

structure Config where
  watch : WatchConfig := {}
  analysis : AnalysisConfig := {}
  state : StateConfig := {}
  deriving DecidableEq, Repr

inductive ConfigError
  | missingDirectory (path : Path)
  | invalidOption (option reason : String)
  | io (path : Path) (reason : String)
  | parse (path : Path) (reason : String)
  deriving DecidableEq, Repr

namespace ConfigError

def message : ConfigError → String
  | missingDirectory path => s!"missing required directory: {path.text}"
  | invalidOption option reason => s!"invalid configuration option '{option}': {reason}"
  | io path reason => s!"failed to read configuration {path.text}: {reason}"
  | parse path reason => s!"failed to parse configuration {path.text}: {reason}"

def path? : ConfigError → Option Path
  | missingDirectory path => some path
  | invalidOption _ _ => none
  | io path _ => some path
  | parse path _ => some path

end ConfigError

namespace Config

def validate (config : Config) : Except ConfigError Unit :=
  if config.watch.debounceMs = 0 then
    .error (.invalidOption "watch.debounce_ms" "must be greater than zero")
  else if config.analysis.cloneWindow < 2 then
    .error (.invalidOption "analysis.clone_window" "must be at least 2 lines")
  else .ok ()

end Config

end Scrutiny
