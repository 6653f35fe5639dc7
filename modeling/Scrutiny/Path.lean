import Scrutiny.Text.Lines

/-!
Paths as they are written and as they are meant.  A path keeps its text, which is what output
shows.  What it means is its list of components: repeated slashes, inner `.` components and a
final slash say nothing, and two paths are the same if their components are.
-/

namespace Scrutiny

inductive Component
  | root
  | current
  | parent
  | normal (name : String)
  deriving DecidableEq, Repr

namespace Component

def text : Component → String
  | root => "/"
  | current => "."
  | parent => ".."
  | normal name => name

def rank : Component → Nat
  | root => 0
  | current => 1
  | parent => 2
  | normal _ => 3

def order (a b : Component) : Ordering :=
  (compare a.rank b.rank).then (compare a.text b.text)

end Component

structure Path where
  text : String
  deriving DecidableEq, Repr, Inhabited

namespace Path

/-! ## Segments -/

/-- The part of a path that its trivial segments cannot change: a leading `/`, or a leading `.`
segment. -/
def lead (path : Path) : List Char :=
  match path.text.toList with
  | '/' :: _ => ['/']
  | ['.'] => ['.']
  | '.' :: '/' :: _ => ['.']
  | _ => []

def segments (path : Path) : List (List Char) :=
  Text.splitOn '/' (path.text.toList.drop path.lead.length)

/-- Empty segments and inner `.` segments say nothing. -/
def isTrivial (segment : List Char) : Bool :=
  segment == [] || segment == ['.']

def dropTrivialEnd (segments : List (List Char)) : List (List Char) :=
  (segments.reverse.dropWhile isTrivial).reverse

def ofSegments (lead : List Char) (segments : List (List Char)) : Path :=
  ⟨String.ofList (lead ++ ['/'].intercalate segments)⟩

def componentOf (segment : List Char) : Option Component :=
  if isTrivial segment then none
  else if segment == ['.', '.'] then some .parent
  else some (.normal (String.ofList segment))

/-! ## Components -/

def leadComponents (path : Path) : List Component :=
  match path.lead with
  | '/' :: _ => [.root]
  | '.' :: _ => [.current]
  | _ => []

/-- What the path means. -/
def components (path : Path) : List Component :=
  path.leadComponents ++ path.segments.filterMap componentOf

def same (p q : Path) : Bool :=
  p.components == q.components

def hasComponent (path : Path) (name : String) : Bool :=
  path.components.any fun component => component.text == name

def orderComponents : List Component → List Component → Ordering
  | [], [] => .eq
  | [], _ :: _ => .lt
  | _ :: _, [] => .gt
  | a :: as, b :: bs => (a.order b).then (orderComponents as bs)

def order (p q : Path) : Ordering :=
  orderComponents p.components q.components

def le (p q : Path) : Bool :=
  (p.order q).isLE

def endsWith (path : Path) (names : List String) : Bool :=
  (names.map Component.normal).isSuffixOf path.components

/-! ## Parts -/

def fileName? (path : Path) : Option String :=
  match path.components.getLast? with
  | some (.normal name) => some name
  | _ => none

def fileName (path : Path) : String :=
  path.fileName?.getD ""

/-- Splits a name at its last dot; a dot at the very start does not count. -/
def splitExtension (name : List Char) : List Char × Option (List Char) :=
  let tail := (name.reverse.takeWhile (· != '.')).reverse
  let front := name.take (name.length - tail.length - 1)
  if tail.length == name.length || front.isEmpty then (name, none) else (front, some tail)

def stem? (path : Path) : Option String :=
  path.fileName?.map fun name => String.ofList (splitExtension name.toList).1

def extension? (path : Path) : Option String :=
  path.fileName?.bind fun name => (splitExtension name.toList).2.map String.ofList

/-- The path without its last component, or nothing for a root and for the empty path. -/
def parent? (path : Path) : Option Path :=
  match dropTrivialEnd path.segments with
  | [] => if path.lead == ['.'] then some ⟨""⟩ else none
  | segments => some (ofSegments path.lead (dropTrivialEnd segments.dropLast))

/-! ## Joining and stripping -/

def ofNames (names : List String) : Path :=
  ⟨"/" ++ "/".intercalate names⟩

def isAbsolute (path : Path) : Bool :=
  path.lead == ['/']

/-- Appends a relative path; an absolute one replaces the base. -/
def join (base child : Path) : Path :=
  if child.isAbsolute then child
  else
    match base.text.toList.getLast? with
    | none => child
    | some '/' => ⟨base.text ++ child.text⟩
    | some _ => ⟨base.text ++ "/" ++ child.text⟩

/-- Leaves out everything up to and including the first `count` components that are no lead. -/
def dropNamed : Nat → List (List Char) → List (List Char)
  | 0, segments => segments
  | _ + 1, [] => []
  | count + 1, segment :: segments =>
      if isTrivial segment then dropNamed (count + 1) segments else dropNamed count segments

def stripBase? (base path : Path) : Option Path :=
  if base.components.isPrefixOf path.components then
    if base.components.isEmpty then some (ofSegments path.lead (dropTrivialEnd path.segments))
    else
      let named := base.components.length - path.leadComponents.length
      some (ofSegments [] (dropTrivialEnd ((dropNamed named path.segments).dropWhile isTrivial)))
  else none

end Path

end Scrutiny
