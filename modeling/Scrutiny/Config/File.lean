import Scrutiny.Config.Basic
import Scrutiny.Json.Parser
import Scrutiny.Tree.Basic

/-!
The configuration file of a project.  It may give any of the options; the others keep their
defaults.
-/

namespace Scrutiny

namespace WatchConfig

def ofJson? (value : Json) : Option WatchConfig := do
  let default : WatchConfig := {}
  match ← value.record? ["debounce_ms", "recursive", "extensions", "ignored_dirs"] with
  | [debounceMs, recursive, extensions, ignoredDirs] =>
      pure {
        debounceMs := ← Json.defaulted? default.debounceMs Json.natural? debounceMs
        recursive := ← Json.defaulted? default.recursive Json.bool? recursive
        extensions := ← Json.defaulted? default.extensions (Json.list? Json.string?) extensions
        ignoredDirs :=
          ← Json.defaulted? default.ignoredDirs (Json.list? Json.string?) ignoredDirs
      }
  | _ => none

end WatchConfig

namespace AnalysisConfig

def ofJson? (value : Json) : Option AnalysisConfig := do
  let default : AnalysisConfig := {}
  let path? (value : Json) : Option Path := value.string?.map Path.mk
  match ← value.record? ["clone_window", "min_clone_chars", "rule_documents", "skip_dirs"] with
  | [cloneWindow, minCloneChars, ruleDocuments, skipDirs] =>
      pure {
        cloneWindow := ← Json.defaulted? default.cloneWindow Json.natural? cloneWindow
        minCloneChars := ← Json.defaulted? default.minCloneChars Json.natural? minCloneChars
        ruleDocuments := ← Json.defaulted? default.ruleDocuments (Json.list? path?) ruleDocuments
        skipDirs := ← Json.defaulted? default.skipDirs (Json.list? Json.string?) skipDirs
      }
  | _ => none

end AnalysisConfig

namespace StateConfig

def ofJson? (value : Json) : Option StateConfig := do
  let default : StateConfig := {}
  match ← value.record? ["dir", "criticisms_file", "preferences_file"] with
  | [dir, criticismsFile, preferencesFile] =>
      pure {
        dir := ← Json.defaulted? default.dir (fun dir => dir.string?.map Path.mk) dir
        criticismsFile := ← Json.defaulted? default.criticismsFile Json.string? criticismsFile
        preferencesFile := ← Json.defaulted? default.preferencesFile Json.string? preferencesFile
      }
  | _ => none

end StateConfig

namespace Config

def ofJson? (value : Json) : Option Config := do
  match ← value.record? ["watch", "analysis", "state"] with
  | [watch, analysis, state] =>
      pure {
        watch := ← Json.defaulted? {} WatchConfig.ofJson? watch
        analysis := ← Json.defaulted? {} AnalysisConfig.ofJson? analysis
        state := ← Json.defaulted? {} StateConfig.ofJson? state
      }
  | _ => none

def ofText (path : Path) (text : String) : Except ConfigError Config :=
  match (Json.parse? text).bind ofJson? with
  | some config => config.validate.map fun () => config
  | none => .error (.parse path "not a configuration document")

/-- Where a project's configuration file lies, whatever its state directory. -/
def filePath (root : Path) : Path :=
  (root.join ({} : StateConfig).dir).join ⟨"config.json"⟩

/-- The configuration of the project at `root`; the default one if it has no file. -/
def load (tree : Tree) (root : Path) : Except ConfigError Config :=
  if !tree.isDir root then .error (.missingDirectory root)
  else
    let path := filePath root
    match tree.content? path with
    | none => .ok {}
    | some content =>
        match content.text? with
        | some text => ofText path text
        | none => .error (.io path "stream did not contain valid UTF-8")

end Config

end Scrutiny
