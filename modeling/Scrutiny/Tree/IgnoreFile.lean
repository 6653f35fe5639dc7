import Scrutiny.Tree.Basic
import Scrutiny.Tree.Glob

/-!
Ignore files.  A line is a pattern for the paths below the file's directory; the last line that
matches decides, and a line after `!` decides for keeping.  A pattern with a slash before its
end is read from the directory, any other one also from every directory below.

The rules are those of the ignore files in a tree and of the repositories that it holds.  The rules
that a user keeps for all repositories, which would have the least weight, are taken to be none.
-/

namespace Scrutiny

structure IgnoreRule where
  tokens : List Glob.Token
  onlyDirs : Bool
  keeps : Bool

inductive Verdict
  | silent
  | excluded
  | kept
  deriving DecidableEq, Repr

namespace Verdict

def orElse : Verdict → Verdict → Verdict
  | silent, other => other
  | verdict, _ => verdict

end Verdict

namespace IgnoreRule

def trimmedLine (line : List Char) : List Char :=
  if ['\\', ' '].isSuffixOf line then line else Text.trimEnd line

/-- The pattern that is matched for a line's body.  Everything below a directory does not
include the directory. -/
def wholePattern (anchored : Bool) (body : List Char) : List Char :=
  let pattern :=
    if anchored || body.contains '/' || body == ['*', '*'] then body
    else ['*', '*', '/'] ++ body
  if ['/', '*', '*'].isSuffixOf pattern then pattern ++ ['/', '*'] else pattern

def ofLine? (line : List Char) : Option IgnoreRule :=
  if line.head? == some '#' then none
  else
    let line := trimmedLine line
    if line.isEmpty then none
    else
      let escaped := ['\\', '!'].isPrefixOf line || ['\\', '#'].isPrefixOf line
      let keeps := !escaped && line.head? == some '!'
      let body := if escaped || keeps then line.drop 1 else line
      let anchored := !escaped && body.head? == some '/'
      let body := if anchored then body.drop 1 else body
      let onlyDirs := body.getLast? == some '/'
      let body := if onlyDirs then body.dropLast else body
      let body := if onlyDirs && body.getLast? == some '\\' then body.dropLast else body
      (Glob.parse? (wholePattern anchored body)).map fun tokens => ⟨tokens, onlyDirs, keeps⟩

/-- The rules of a file's text.  Byte order marks in front do not count.  A file that holds a
pattern nested too deep has no rules. -/
def ofText (text : List Char) : List IgnoreRule :=
  let rules := (Text.lines (text.dropWhile (· == '\uFEFF'))).filterMap ofLine?
  if rules.any fun rule => Glob.isTooDeep rule.tokens then [] else rules

/-- What the last matching rule says about a path relative to the rules' directory. -/
def verdict (rules : List IgnoreRule) (names : List String) (isDir : Bool) : Verdict :=
  if rules.isEmpty then .silent
  else
    let path := ("/".intercalate names).toUTF8.toList
    let decides (rule : IgnoreRule) : Bool :=
      (!rule.onlyDirs || isDir) && Glob.isMatch rule.tokens path
    match rules.reverse.find? decides with
    | some rule => if rule.keeps then .kept else .excluded
    | none => .silent

end IgnoreRule

/-- The rules that hold below one directory, of three files in falling weight. -/
structure IgnoreLevel where
  depth : Nat
  plain : List IgnoreRule
  tracked : List IgnoreRule
  untracked : List IgnoreRule

namespace IgnoreLevel

def plainFile : Path := ⟨".ignore"⟩

def trackedFile : Path := ⟨".gitignore"⟩

def untrackedFile : Path := ⟨"info/exclude"⟩

def repositoryName : Path := ⟨".git"⟩

def commonName : Path := ⟨"commondir"⟩

def pointedDir? (content : Content) : Option Path :=
  content.firstLine?.bind fun line =>
    (Text.dropPrefix? "gitdir: ".toList line).map fun rest => ⟨String.ofList rest⟩

/-- The directory that a `commondir` file in `place` names; only a name that begins with a dot is
read from there. -/
def commonDir? (place : Path) (content : Content) : Option Path :=
  content.firstLine?.map fun line =>
    let named : Path := ⟨String.ofList line⟩
    if line.head? == some '.' then place.join named else named

def repositoryDir? (tree : Tree) (dir : Path) : Option Path :=
  match tree.content? (dir.join repositoryName) with
  | none => some (dir.join repositoryName)
  | some content => do
      let place ← pointedDir? content
      commonDir? place (← tree.content? (place.join commonName))

def ofDir (tree : Tree) (depth : Nat) (dir : Path) : IgnoreLevel :=
  let rules (file : Path) : List IgnoreRule :=
    ((tree.content? file).map fun content => IgnoreRule.ofText content.leadingText).getD []
  let untracked := ((repositoryDir? tree dir).map fun own => rules (own.join untrackedFile)).getD []
  ⟨depth, rules (dir.join plainFile), rules (dir.join trackedFile), untracked⟩

def isEmpty (level : IgnoreLevel) : Bool :=
  level.plain.isEmpty && level.tracked.isEmpty && level.untracked.isEmpty

def under (level : IgnoreLevel) (outer : List IgnoreLevel) : List IgnoreLevel :=
  if level.isEmpty then outer else level :: outer

/-- The verdict of the nearest level that has one, on an entry given by all its names. -/
def nearest (levels : List IgnoreLevel) (rules : IgnoreLevel → List IgnoreRule)
    (names : List String) (isDir : Bool) : Verdict :=
  match levels with
  | [] => .silent
  | level :: outer =>
      (IgnoreRule.verdict (rules level) (names.drop level.depth) isDir).orElse
        (nearest outer rules names isDir)

def excludes (levels : List IgnoreLevel) (names : List String) (isDir : Bool) : Bool :=
  let verdict := (nearest levels plain names isDir).orElse
    ((nearest levels tracked names isDir).orElse (nearest levels untracked names isDir))
  verdict = .excluded

end IgnoreLevel

end Scrutiny
