import Scrutiny.Path
import Scrutiny.Tree.Node

/-!
Reading and writing in a tree by paths.  A path is resolved step by step from the top, or from
the working directory: links are followed, at most forty of them, `..` goes back to where the
directory really lies, and a final slash asks for a directory.
-/

namespace Scrutiny

inductive OsError
  | notFound
  | exists
  | notDirectory
  | isDirectory
  | nameTooLong
  | tooManyLinks
  | nulInPath
  deriving DecidableEq, Repr

namespace OsError

def number? : OsError → Option Nat
  | notFound => some 2
  | OsError.exists => some 17
  | notDirectory => some 20
  | isDirectory => some 21
  | nameTooLong => some 36
  | tooManyLinks => some 40
  | nulInPath => none

def reason : OsError → String
  | notFound => "No such file or directory"
  | OsError.exists => "File exists"
  | notDirectory => "Not a directory"
  | isDirectory => "Is a directory"
  | nameTooLong => "File name too long"
  | tooManyLinks => "Too many levels of symbolic links"
  | nulInPath => "file name contained an unexpected NUL byte"

def message (error : OsError) : String :=
  match error.number? with
  | some number => s!"{error.reason} (os error {number})"
  | none => error.reason

end OsError

/-- A directory tree.  Absolute paths start at its top, relative ones at the working directory,
which is given by the names that lead to it. -/
structure Tree where
  top : Node
  directory : List String := []

namespace Tree

/-! ## Steps -/

inductive Step
  | stay
  | up
  | enter (name : String)
  deriving DecidableEq, Repr

def Step.ofSegment (segment : List Char) : Option Step :=
  if segment.isEmpty then none
  else if segment == ['.'] then some .stay
  else if segment == ['.', '.'] then some .up
  else some (.enter (String.ofList segment))

def plainSteps (text : String) : List Step :=
  (Text.splitOn '/' text.toList).filterMap Step.ofSegment

def endsInSlash (text : String) : Bool :=
  text.toList.getLast? == some '/' && text != "/"

/-- The steps that a path's text spells.  A final slash is one more step that stays. -/
def stepsOf (text : String) : List Step :=
  plainSteps text ++ if endsInSlash text then [.stay] else []

def longestName : Nat := 255

def longestPath : Nat := 4095

def mostLinks : Nat := 40

def flaw? (path : Path) : Option OsError :=
  if path.text.toList.contains '\x00' then some .nulInPath
  else if path.text.isEmpty then some .notFound
  else if longestPath < path.text.utf8ByteSize then some .nameTooLong
  else none

/-! ## Resolving paths -/

/-- The way from the top to a node, innermost first: the names, and the nodes that they lead
to. -/
abbrev Trail : Type := List (String × Node)

def Trail.names (trail : Trail) : List String :=
  (trail.map Prod.fst).reverse

def nodeOn (tree : Tree) : Trail → Node
  | [] => tree.top
  | (_, node) :: _ => node

def trailOf (tree : Tree) (names : List String) : Trail :=
  names.foldl
    (fun trail name =>
      match (tree.nodeOn trail).child? name with
      | some node => (name, node) :: trail
      | none => trail)
    []

/-- Where a path leads: to a node, or to a free name in a directory. -/
inductive Place
  | found (names : List String) (node : Node)
  | free (names : List String) (name : String)

/-- Resolves steps from the end of a trail.  `links` more links may be followed; a link in the
last step is followed if `last` says so. -/
def resolve (tree : Tree) (last : Bool) (links : Nat) (trail : Trail) (steps : List Step) :
    Except OsError Place :=
  match steps with
  | [] => .ok (.found trail.names (tree.nodeOn trail))
  | step :: rest =>
      match tree.nodeOn trail with
      | .dir entries =>
          match step with
          | .stay => resolve tree last links trail rest
          | .up => resolve tree last links trail.tail rest
          | .enter name =>
              if longestName < name.utf8ByteSize then .error .nameTooLong
              else
                match entries.lookup name with
                | none => if rest.isEmpty then .ok (.free trail.names name) else .error .notFound
                | some (.link target) =>
                    if rest.isEmpty && !last then
                      .ok (.found (trail.names ++ [name]) (.link target))
                    else
                      match links with
                      | 0 => .error .tooManyLinks
                      | links + 1 =>
                          let start := if target.startsWith "/" then [] else trail
                          resolve tree last links start (stepsOf target ++ rest)
                | some node => resolve tree last links ((name, node) :: trail) rest
      | _ => .error .notDirectory
termination_by (links, steps.length)

def placeOf (tree : Tree) (last : Bool) (path : Path) (steps : List Step) :
    Except OsError Place :=
  match flaw? path with
  | some error => .error error
  | none =>
      let start := if path.isAbsolute then [] else tree.trailOf tree.directory
      tree.resolve last mostLinks start steps

def place (tree : Tree) (last : Bool) (path : Path) : Except OsError Place :=
  tree.placeOf last path (stepsOf path.text)

def node? (tree : Tree) (path : Path) : Option Node :=
  match tree.place true path with
  | .ok (.found _ node) => some node
  | _ => none

def isDir (tree : Tree) (path : Path) : Bool :=
  (tree.node? path).any Node.isDir

def isFile (tree : Tree) (path : Path) : Bool :=
  (tree.node? path).any Node.isFile

def «exists» (tree : Tree) (path : Path) : Bool :=
  (tree.node? path).isSome

def dirNames? (tree : Tree) (path : Path) : Option (List String) :=
  match tree.place true path with
  | .ok (.found names (.dir _)) => some names
  | _ => none

/-! ## Reading -/

def content? (tree : Tree) (path : Path) : Option Content :=
  match tree.node? path with
  | some (.file content) => some content
  | _ => none

def readText? (tree : Tree) (path : Path) : Option String :=
  (tree.content? path).bind Content.text?

/-! ## Writing -/

def put (tree : Tree) (names : List String) (node : Node) : Tree :=
  { tree with top := tree.top.put names node }

def makeDir (tree : Tree) (path : Path) : Except OsError Tree :=
  match tree.placeOf false path (plainSteps path.text) with
  | .ok (.free names name) => .ok (tree.put (names ++ [name]) (.dir []))
  | .ok (.found _ _) => .error .exists
  | .error error => .error error

/-- Makes a directory and those above it, at most `depth` levels, and keeps what it made when a
level fails. -/
def makeDirsWithin : Nat → Tree → Path → Except OsError Unit × Tree
  | depth, tree, path =>
      if path.text.isEmpty then (.ok (), tree)
      else
        match tree.makeDir path with
        | .ok made => (.ok (), made)
        | .error error =>
            if error = .notFound then
              match depth, path.parent? with
              | depth + 1, some parent =>
                  match makeDirsWithin depth tree parent with
                  | (.error error, made) => (.error error, made)
                  | (.ok (), made) =>
                      match made.makeDir path with
                      | .ok made => (.ok (), made)
                      | .error error =>
                          if made.isDir path then (.ok (), made) else (.error error, made)
              | _, _ => (.error .notFound, tree)
            else if tree.isDir path then (.ok (), tree)
            else (.error error, tree)

def makeDirs (tree : Tree) (path : Path) : Except OsError Unit × Tree :=
  makeDirsWithin path.segments.length tree path

/-- Where a file to be written lies.  Slashes after its name ask for a directory, which no file
is; the name is then not looked at. -/
def placeToWrite (tree : Tree) (path : Path) : Except OsError Place :=
  let steps := plainSteps path.text
  match endsInSlash path.text, steps.getLast? with
  | true, some (.enter _) =>
      match tree.placeOf true path (steps.dropLast ++ [.stay]) with
      | .ok _ => .error .isDirectory
      | .error error => .error error
  | _, _ => tree.place true path

def writeFile (tree : Tree) (path : Path) (content : Content) : Except OsError Tree :=
  match tree.placeToWrite path with
  | .ok (.found _ (.dir _)) => .error .isDirectory
  | .ok (.found names _) => .ok (tree.put names (.file content))
  | .ok (.free names name) => .ok (tree.put (names ++ [name]) (.file content))
  | .error error => .error error

def writeText (tree : Tree) (path : Path) (text : String) : Except OsError Tree :=
  tree.writeFile path (.text text)

def remove (tree : Tree) (path : Path) : Bool × Tree :=
  match tree.place false path with
  | .ok (.found names _) => (true, { tree with top := tree.top.erase names })
  | _ => (false, tree)

end Tree

end Scrutiny
