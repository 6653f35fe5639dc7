import Scrutiny.Text.Lines

/-!
Glob patterns of ignore files.  A pattern is matched against the bytes of a whole path with `/`
between its names; `?`, `*` and classes read single bytes, and only `**` reads across a `/`.
-/

namespace Scrutiny.Glob

inductive Token
  | literal (c : Char)
  | anyByte
  | run
  /-- Any number of directories in front, or none. -/
  | leadingDirs
  | trailingDirs
  /-- A slash, with any number of directories in between. -/
  | innerDirs
  | byteClass (negated : Bool) (ranges : List (Char × Char))
  | choice (branches : List (List Token))
  deriving Inhabited

/-! ## Reading patterns -/

/-- One level of braces: the branches read so far and the branch being read, last token first.
The outermost level has one branch. -/
structure Level where
  done : List (List Token)
  current : List Token

/-- A reader's state: the levels from the innermost out, the character before the next one, and
whether a bracket without its partner was met, after which brackets are literal. -/
structure State where
  levels : List Level
  previous : Option Char
  literalBrackets : Bool

def State.initial : State :=
  ⟨[⟨[], []⟩], none, false⟩

def State.push (state : State) (token : Token) : State :=
  match state.levels with
  | [] => state
  | level :: levels =>
      { state with levels := { level with current := token :: level.current } :: levels }

def State.inBraces (state : State) : Bool :=
  1 < state.levels.length

def State.branchIsEmpty (state : State) : Bool :=
  match state.levels with
  | [] => true
  | level :: _ => level.current.isEmpty

def State.pushDirs (state : State) (token : Token) : State :=
  match state.levels with
  | ⟨done, before :: current⟩ :: levels =>
      -- the slash before the stars belongs to the token, and so do stars with their slash
      let token :=
        match before with
        | .leadingDirs => .leadingDirs
        | .trailingDirs => .trailingDirs
        | _ => token
      { state with levels := ⟨done, token :: current⟩ :: levels }
  | _ => state.push token

/-- The ranges of a class up to its closing bracket, and the rest; `none` inside if a range runs
backwards, `none` outside if there is no closing bracket. -/
def classRanges? (first inRange : Bool) (ranges : List (Char × Char)) :
    List Char → Option (Option (List (Char × Char)) × List Char)
  | [] => none
  | c :: rest =>
      if c == ']' && !first then
        some (some (if inRange then ranges ++ [('-', '-')] else ranges), rest)
      else if c == '-' && !first && !inRange then classRanges? false true ranges rest
      else if inRange then
        match ranges.getLast? with
        | some (low, _) =>
            if c < low then some (none, rest)
            else classRanges? false false (ranges.dropLast ++ [(low, c)]) rest
        | none => some (none, rest)
      else classRanges? false false (ranges ++ [(c, c)]) rest

def doubleStar (state : State) (rest : List Char) : State × List Char :=
  let ended (state : State) (c : Char) : State := { state with previous := some c }
  let plain := (ended ((state.push .run).push .run) '*', rest)
  let opensBranch := state.inBraces && (state.previous == some ',' || state.previous == some '\x7b')
  if state.branchIsEmpty then
    match rest with
    | [] => (ended (state.push .leadingDirs) '*', [])
    | '/' :: rest => (ended (state.push .leadingDirs) '/', rest)
    | _ => plain
  else if state.previous != some '/' && !opensBranch then plain
  else
    match rest with
    | [] => (ended (state.pushDirs .trailingDirs) '*', [])
    | '/' :: rest => (ended (state.pushDirs .innerDirs) '/', rest)
    | c :: _ =>
        if (c == ',' || c == '\x7d') && state.inBraces then
          (ended (state.pushDirs .trailingDirs) '*', rest)
        else plain

def step? (state : State) (c : Char) (rest : List Char) : Option (State × List Char) :=
  let next := { state with previous := some c }
  if c == '?' then some (next.push .anyByte, rest)
  else if c == '*' then
    match rest with
    | '*' :: rest => some (doubleStar state rest)
    | _ => some (next.push .run, rest)
  else if c == '[' && !state.literalBrackets then
    let (negated, body) :=
      match rest with
      | '!' :: body => (true, body)
      | '^' :: body => (true, body)
      | _ => (false, rest)
    match classRanges? true false [] body with
    | some (some ranges, rest) =>
        some ({ next with previous := some ']' }.push (.byteClass negated ranges), rest)
    | some (none, _) => none
    | none => some ({ next with literalBrackets := true }.push (.literal '['), rest)
  else if c == '\x7b' then some ({ next with levels := ⟨[], []⟩ :: next.levels }, rest)
  else if c == '\x7d' then
    match next.levels with
    | level :: outer :: levels =>
        let token := Token.choice (level.done ++ [level.current.reverse])
        some ({ next with levels := outer :: levels }.push token, rest)
    | _ => none
  else if c == ',' && state.inBraces then
    match next.levels with
    | level :: levels =>
        some ({ next with levels := ⟨level.done ++ [level.current.reverse], []⟩ :: levels }, rest)
    | [] => none
  else if c == '\\' then
    match rest with
    | escaped :: rest => some ({ next with previous := some escaped }.push (.literal escaped), rest)
    | [] => none
  else some (next.push (.literal c), rest)

def readWithin : Nat → State → List Char → Option State
  | _, state, [] => some state
  | 0, _, _ => none
  | bound + 1, state, c :: rest => (step? state c rest).bind fun (state, rest) =>
      readWithin bound state rest

def parse? (pattern : List Char) : Option (List Token) :=
  match readWithin pattern.length .initial pattern with
  | some ⟨[level], _, _⟩ => some level.current.reverse
  | _ => none

/-! ## Bytes -/

def slash : UInt8 := 47

def bytesOf (c : Char) : List UInt8 :=
  (String.singleton c).toUTF8.toList

/-- The byte ranges that a range of characters is read as: the bytes of both ends, the last of
the first joined to the first of the last. -/
def byteRanges (range : Char × Char) : List (UInt8 × UInt8) :=
  if range.1 == range.2 then (bytesOf range.1).map fun b => (b, b)
  else
    match (bytesOf range.1).reverse, bytesOf range.2 with
    | low :: lows, high :: highs => (low, high) :: (lows ++ highs).map fun b => (b, b)
    | _, _ => []

/-! ## Nesting -/

mutual

/-- How many operands the tokens of a sequence are, where only none, one or several matters. -/
def operands : List Token → Nat
  | [] => 0
  | token :: tokens => tokenOperands token + operands tokens

def tokenOperands : Token → Nat
  | .literal c => c.utf8Size
  | .trailingDirs => 2
  | .choice branches => if branchesAreEmpty branches then 0 else 1
  | _ => 1

/-- Whether no branch of a choice reads anything.  Such a choice does not count. -/
def branchesAreEmpty : List (List Token) → Bool
  | [] => true
  | branch :: branches => operands branch == 0 && branchesAreEmpty branches

end

def sequenceNesting (operands deepest : Nat) : Nat :=
  if 1 < operands then deepest + 1 else deepest

def fullBranches (branches : List (List Token)) : Nat :=
  (branches.filter fun branch => 0 < operands branch).length

mutual

def nesting : List Token → Nat
  | [] => 0
  | token :: tokens => max (tokenNesting token) (nesting tokens)

def tokenNesting : Token → Nat
  | .literal _ => 0
  | .anyByte => 1
  | .run => 2
  | .leadingDirs => 4
  | .trailingDirs => 1
  | .innerDirs => 4
  | .byteClass _ ranges => if 1 < (ranges.flatMap byteRanges).length then 2 else 1
  | .choice branches =>
      if fullBranches branches = 0 then 0
      else branchesNesting branches + if 1 < fullBranches branches then 2 else 1

def branchesNesting : List (List Token) → Nat
  | [] => 0
  | branch :: branches =>
      max (sequenceNesting (operands branch) (nesting branch)) (branchesNesting branches)

end

def deepestNesting : Nat := 250

/-- Whether a pattern nests too deep.  A whole pattern is a sequence that two more steps, the
ends of the path, belong to. -/
def isTooDeep (tokens : List Token) : Bool :=
  deepestNesting < nesting tokens + 1

/-! ## Matching -/

def inClass (negated : Bool) (ranges : List (Char × Char)) (b : UInt8) : Bool :=
  ((ranges.flatMap byteRanges).any fun (low, high) => low ≤ b && b ≤ high) != negated

/-! A set of ends of a path is a list of marks: the first mark is for the whole path, each next
one for the path without one more byte in front, and the last for the empty end.  A token takes
the set of the ends that what follows it reads to the set of the ends that it reads with what
follows. -/

/-- The ends that consist of an accepted byte and a marked end. -/
def marksBefore (accepts : UInt8 → Bool) : List UInt8 → List Bool → List Bool
  | b :: path, _ :: marks =>
      (accepts b && marks.head?.any id) :: marksBefore accepts path marks
  | _, _ => [false]

def marksBeforeRun (accepts : UInt8 → Bool) : List UInt8 → List Bool → List Bool
  | b :: path, mark :: marks =>
      let later := marksBeforeRun accepts path marks
      (mark || (accepts b && later.head?.any id)) :: later
  | _, marks => marks

def marksAround (path : List UInt8) (marks : List Bool) : List Bool :=
  marksBeforeRun (fun _ => true) path marks

/-- The marked ends, and those that have a slash before a marked end somewhere in them. -/
def marksBeforeDirs (path : List UInt8) (marks : List Bool) : List Bool :=
  (marks.zip (marksAround path (marksBefore (· == slash) path marks))).map fun (here, later) =>
    here || later

def union (marks others : List Bool) : List Bool :=
  (marks.zip others).map fun (mark, other) => mark || other

mutual

def marksOf (path : List UInt8) (marks : List Bool) : List Token → List Bool
  | [] => marks
  | token :: tokens => tokenMarks path (marksOf path marks tokens) token

def tokenMarks (path : List UInt8) (marks : List Bool) : Token → List Bool
  | .literal c => (bytesOf c).foldr (fun byte marks => marksBefore (· == byte) path marks) marks
  | .anyByte => marksBefore (· != slash) path marks
  | .run => marksBeforeRun (· != slash) path marks
  | .leadingDirs => marksBeforeDirs path marks
  | .trailingDirs => marksBefore (· == slash) path (marksAround path marks)
  | .innerDirs => marksBefore (· == slash) path (marksBeforeDirs path marks)
  | .byteClass negated ranges => marksBefore (inClass negated ranges) path marks
  | .choice branches =>
      if branchesAreEmpty branches then marks else branchesMarks path marks branches

def branchesMarks (path : List UInt8) (marks : List Bool) : List (List Token) → List Bool
  | [] => marks.map fun _ => false
  | branch :: branches =>
      let others := branchesMarks path marks branches
      if operands branch = 0 then others else union (marksOf path marks branch) others

end

/-- Whether a pattern matches a path.  A pattern of nothing but `**` matches every path. -/
def isMatch (tokens : List Token) (path : List UInt8) : Bool :=
  match tokens with
  | [.leadingDirs] => true
  | _ => (marksOf path (path.map (fun _ => false) ++ [true]) tokens).head?.any id

end Scrutiny.Glob
