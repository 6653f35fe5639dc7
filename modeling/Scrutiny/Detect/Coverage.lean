import Scrutiny.Detect.Scope
import Scrutiny.Tree.Basic

/-!
Tests for new files.  A file of source code is covered if one of three files named after it
exists; only files that the caller names are looked at.
-/

namespace Scrutiny.Coverage

def candidates (path : Path) : List Path :=
  match path.stem?, path.extension? with
  | some stem, some extension =>
      let dir := path.parent?.getD ⟨""⟩
      let test : Path := ⟨stem ++ ".test." ++ extension⟩
      let spec : Path := ⟨stem ++ ".spec." ++ extension⟩
      [dir.join test, dir.join spec, (dir.join ⟨"__tests__"⟩).join test]
  | _, _ => []

def needsTests (path : Path) : Bool :=
  path.isSource && !path.isTest && !path.nameEndsWith ".d.ts"

def suggest (tree : Tree) (root path : Path) : Option Finding :=
  if !needsTests path then none
  else
    match candidates path with
    | [] => none
    | expected :: others =>
        if (expected :: others).any fun candidate => tree.isFile (root.join candidate) then none
        else
          some {
            category := .test
            subject := s!"add tests for {path.text}"
            description :=
              s!"{path.text} was added without tests. Consider adding {expected.text}."
            files := [path]
            location := some path.text
            severity := .low
          }

/-- Suggests tests for the changed paths; a full run looks at nothing. -/
def detect (tree : Tree) (scope : Scope) : Detection :=
  match scope.changed with
  | none => .empty
  | some changed =>
      .of (changed.sorted.filterMap (suggest tree scope.root)) changed.paths.length

end Scrutiny.Coverage
