import Std.Data.HashMap
import Scrutiny.Detect.Normal
import Scrutiny.Detect.Scope
import Scrutiny.Digest.Fingerprint

/-!
Duplicated code.  Every file of source code that is no test is cut into overlapping windows of
lines; windows whose normal forms have the same fingerprint count as the same code.  Of each
fingerprint the first two occurrences are reported, and each pair of files once.
-/

namespace Scrutiny.Clones

/-- A window: its fingerprint, the place of its file in the list of compared files, and its
first line. -/
structure Occurrence where
  hash : Int32
  file : Nat
  line : Nat
  deriving DecidableEq, Repr

/-! ## Windows -/

def windows {α : Type} (size : Nat) : List α → List (List α)
  | [] => []
  | item :: items =>
      let window := (item :: items).take size
      if size ≠ 0 ∧ window.length = size then window :: windows size items else []

def fingerprint? (minChars : Nat) (window : List (List Char)) : Option Int32 :=
  let normal := Normal.chars (['\n'].intercalate window)
  if minChars ≤ (String.ofList normal).utf8ByteSize then some (Fingerprint.ofChars normal)
  else none

def occurrencesIn (config : AnalysisConfig) (file : Nat) (content : String) : List Occurrence :=
  (Text.numbered (windows config.cloneWindow (Text.lines content.toList))).filterMap
    fun (line, window) =>
      (fingerprint? config.minCloneChars window).map fun hash => ⟨hash, file, line⟩

def eligible (files : List SourceFile) : List SourceFile :=
  (files.filter fun file => file.path.isSource && !file.path.isTest).mergeSort
    fun a b => a.path.le b.path

def occurrences (config : AnalysisConfig) (files : List SourceFile) : List Occurrence :=
  files.zipIdx.flatMap fun (file, index) => occurrencesIn config index file.content

/-! ## Groups -/

def groups (occurrences : List Occurrence) : Std.HashMap Int32 (List Occurrence) :=
  occurrences.foldr
    (fun occurrence table =>
      table.insert occurrence.hash (occurrence :: table.getD occurrence.hash []))
    ∅

structure Pair where
  first : Occurrence
  second : Occurrence
  deriving DecidableEq, Repr

def Pair.files (pair : Pair) : Nat × Nat :=
  (min pair.first.file pair.second.file, max pair.first.file pair.second.file)

/-- The first two occurrences of each fingerprint that has two and that `reportable` holds of,
in the order of the first ones. -/
def leadingPairs (reportable : List Occurrence → Bool) (occurrences : List Occurrence) :
    List Pair :=
  let table := groups occurrences
  occurrences.filterMap fun occurrence =>
    match table.getD occurrence.hash [] with
    | first :: second :: rest =>
        if first == occurrence && reportable (first :: second :: rest) then some ⟨first, second⟩
        else none
    | _ => none

def distinctFiles (named : List (Nat × Nat)) : List Pair → List Pair
  | [] => []
  | pair :: pairs =>
      if named.contains pair.files then distinctFiles named pairs
      else pair :: distinctFiles (pair.files :: named) pairs

/-! ## Findings -/

def finding (window : Nat) (hash : Int32) (a : Path × Nat) (b : Path × Nat) : Finding :=
  let (pathA, lineA) := a
  let (pathB, lineB) := b
  let endA := lineA + window - 1
  let endB := lineB + window - 1
  let print := Fingerprint.numeral hash
  let inside := pathA.same pathB
  { category := .simplify
    subject := s!"duplicated code block ({window}+ lines)"
    description :=
      if inside then
        s!"Lines {lineA}-{endA} and {lineB}-{endB} of {pathA.text} are duplicated within the same file (fingerprint {print}). Extract the shared logic into a helper."
      else
        s!"Lines {lineA}-{endA} of {pathA.text} are duplicated in {pathB.text} at line {lineB} (fingerprint {print}). Extract the shared logic into one module."
    files := if inside then [pathA] else [pathA, pathB]
    location := some (lineLocation pathA lineA)
    severity := .medium }

/-- Finds duplicated code.  A fingerprint counts if one of its occurrences is in scope. -/
def detect (scope : Scope) : Detection :=
  let files := eligible scope.files
  let table := files.toArray
  let path (occurrence : Occurrence) : Path :=
    ((table[occurrence.file]?).map SourceFile.path).getD ⟨""⟩
  let reportable (group : List Occurrence) : Bool :=
    group.any fun occurrence => scope.includes (path occurrence)
  let pairs := distinctFiles [] (leadingPairs reportable (occurrences scope.config files))
  let findings := pairs.map fun pair =>
    finding scope.config.cloneWindow pair.first.hash
      (path pair.first, pair.first.line) (path pair.second, pair.second.line)
  .of findings files.length

end Scrutiny.Clones
