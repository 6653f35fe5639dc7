import Scrutiny.Config.Basic

/-!
Which paths a watcher reports.
-/

namespace Scrutiny

/-- Watched extensions, and names that hide whatever has them among its components. -/
structure PathFilter where
  extensions : List String
  ignoredDirs : List String
  deriving DecidableEq, Repr

namespace PathFilter

def ofConfig (config : WatchConfig) : PathFilter :=
  ⟨config.extensions, config.ignoredDirs⟩

def ignoreDir (filter : PathFilter) (name : String) : PathFilter :=
  if filter.ignoredDirs.contains name then filter
  else { filter with ignoredDirs := filter.ignoredDirs ++ [name] }

def isMonitored (filter : PathFilter) (path : Path) : Bool :=
  path.hasExtensionIn filter.extensions

def isIgnored (filter : PathFilter) (path : Path) : Bool :=
  filter.ignoredDirs.any path.hasComponent

def accepts (filter : PathFilter) (path : Path) : Bool :=
  filter.isMonitored path && !filter.isIgnored path

end PathFilter

end Scrutiny
