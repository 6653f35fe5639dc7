import Scrutiny.Path

/-!
Project files and the classes that their paths put them in.
-/

namespace Scrutiny

/-! ## Classes of paths -/

def sourceExtensions : List String :=
  ["ts", "tsx", "js", "jsx", "mjs", "cjs", "py", "go", "rs", "java", "kt", "rb", "php", "swift",
    "c", "cc", "cpp", "h", "hpp", "cs", "vue", "svelte"]

def scriptExtensions : List String :=
  ["ts", "tsx", "js", "jsx", "mjs", "cjs", "mts", "cts"]

def settingsExtensions : List String :=
  ["json", "yaml", "yml", "toml", "ini", "env", "properties", "sh", "tf"]

namespace Path

def hasExtensionIn (path : Path) (extensions : List String) : Bool :=
  path.extension?.any fun extension => extensions.contains extension

def isSource (path : Path) : Bool :=
  path.hasExtensionIn sourceExtensions

def isScript (path : Path) : Bool :=
  path.hasExtensionIn scriptExtensions

def nameHas (path : Path) (part : String) : Bool :=
  Text.occursIn part.toList path.fileName.toList

def nameEndsWith (path : Path) (ending : String) : Bool :=
  ending.toList.isSuffixOf path.fileName.toList

def nameStartsWith (path : Path) (beginning : String) : Bool :=
  beginning.toList.isPrefixOf path.fileName.toList

/-- Tests have `.test.` or `.spec.` in their name, or a component `__tests__`. -/
def isTest (path : Path) : Bool :=
  path.nameHas ".test." || path.nameHas ".spec." || path.hasComponent "__tests__"

def isAnalyzable (path : Path) : Bool :=
  path.fileName == ".env" || path.nameStartsWith ".env." ||
    path.hasExtensionIn sourceExtensions || path.hasExtensionIn settingsExtensions

end Path

/-- A project file with its text; the path is relative to the project. -/
structure SourceFile where
  path : Path
  content : String
  deriving DecidableEq, Repr

end Scrutiny
