import Scrutiny.Preference.Entry
import Scrutiny.Worklist.File

/-!
The preference log: a markdown text with one section of bullets for each decision.  Whatever
else the text holds is left alone, and lines that are no bullets are not read.
-/

namespace Scrutiny

namespace PreferenceLog

/-! ## Reading -/

def entriesOfLines : Option Decision → List (List Char) → List PreferenceEntry
  | _, [] => []
  | current, line :: lines =>
      let line := Text.trimEnd line
      if ['#', '#', ' '].isPrefixOf line then entriesOfLines (Decision.ofHeader? line) lines
      else
        match current.bind fun decision => PreferenceEntry.ofBullet? decision line with
        | some entry => entry :: entriesOfLines current lines
        | none => entriesOfLines current lines

/-- The entries of a log, in order.  A bullet belongs to the section that the last header before
it opens. -/
def entries (text : String) : List PreferenceEntry :=
  entriesOfLines none (Text.lines text.toList)

def rejects (text : String) (category : Category) (subject : String) : Bool :=
  (entries text).any fun entry => entry.rejects category subject

/-! ## Writing -/

def template : String :=
  "# Preferences\n\n## Accepted\n\n## Rejected\n"

def unlines (lines : List (List Char)) : List Char :=
  ['\n'].intercalate lines ++ ['\n']

def splitSection (lines : List (List Char)) : List (List Char) × List (List Char) :=
  lines.span fun line => line.head? != some '#'

def splitBlankEnd (lines : List (List Char)) : List (List Char) × List (List Char) :=
  let blanks := (lines.reverse.takeWhile Text.isBlankText).reverse
  (lines.take (lines.length - blanks.length), blanks)

/-- Puts a line after the last line of a section that is not blank, given the lines that follow
the section's header.  A blank line is added where the next header would follow at once. -/
def insertBelow (line : List Char) (below : List (List Char)) : List (List Char) :=
  let (body, rest) := splitSection below
  let (filled, blanks) := splitBlankEnd body
  filled ++ line :: (if blanks.isEmpty && !rest.isEmpty then [[]] else blanks) ++ rest

def splitAtHeader? (decision : Decision) (lines : List (List Char)) :
    Option (List (List Char) × List Char × List (List Char)) :=
  match lines.span fun line => Text.trimEnd line != decision.header.toList with
  | (before, header :: after) => some (before, header, after)
  | (_, []) => none

/-- The text with a line at the end of a decision's first section, which is added at the end of
the text if it is missing. -/
def insertChars (text : List Char) (decision : Decision) (line : List Char) : List Char :=
  match splitAtHeader? decision (Text.lines text) with
  | some (before, header, after) => unlines (before ++ header :: insertBelow line after)
  | none =>
      let kept := Text.trimEnd text
      (if kept.isEmpty then [] else kept ++ ['\n', '\n']) ++
        unlines [decision.header.toList, line]

def insert (text : String) (entry : PreferenceEntry) : String :=
  let base := if Text.isBlankText text.toList then template else text
  String.ofList (insertChars base.toList entry.decision entry.bullet.toList)

end PreferenceLog

structure PreferenceFile where
  path : Path
  deriving DecidableEq, Repr

namespace PreferenceFile

/-- The log's text; a file that is missing or that is no text holds none. -/
def load (file : PreferenceFile) (tree : Tree) : String :=
  (tree.readText? file.path).getD ""

def entries (file : PreferenceFile) (tree : Tree) : List PreferenceEntry :=
  PreferenceLog.entries (file.load tree)

def rejects (file : PreferenceFile) (tree : Tree) (category : Category) (subject : String) :
    Bool :=
  PreferenceLog.rejects (file.load tree) category subject

def add (file : PreferenceFile) (entry : PreferenceEntry) : TreeStep WriteError Unit := do
  Tree.saveText file.path (PreferenceLog.insert (file.load (← get)) entry)

end PreferenceFile

end Scrutiny
