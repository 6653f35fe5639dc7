import Scrutiny.Tree.IgnoreFile

/-!
Walking a directory tree.  A walk lists the regular files below a directory as lists of names;
links are not files, unless the tree was first unfolded along its links.  What is ignored depends on
the tree alone: a user who excludes files from all repositories is not considered.
-/

namespace Scrutiny

namespace Node

/-- What a walk leaves out: directories with a skipped name and entries that ignore files
exclude.  The levels belong to the directories from the walked one outwards. -/
structure Pruning where
  skipDirs : List String
  base : List String
  level : List String → IgnoreLevel

mutual

def filesBelow (pruning : Pruning) (levels : List IgnoreLevel) (here : List String) :
    Node → List (List String)
  | file _ =>
      if IgnoreLevel.excludes levels (pruning.base ++ here) false then [] else [here]
  | link _ => []
  | dir entries =>
      if IgnoreLevel.excludes levels (pruning.base ++ here) true ||
          here.getLast?.any fun name => pruning.skipDirs.contains name then []
      else filesAmong pruning ((pruning.level here).under levels) here entries

def filesAmong (pruning : Pruning) (levels : List IgnoreLevel) (here : List String) :
    List (String × Node) → List (List String)
  | [] => []
  | (name, node) :: entries =>
      filesBelow pruning levels (here ++ [name]) node ++ filesAmong pruning levels here entries

end

end Node

namespace Tree

/-- The tree below a directory with links replaced by what they lead to.  A link to one of the
directories that it lies in is left out, and so is one that leads nowhere.  `bound` bounds the
depth. -/
def unfold (tree : Tree) : Nat → List (List String) → List String → List (String × Node)
  | 0, _, _ => []
  | bound + 1, above, here =>
      match tree.top.at? here with
      | some (.dir entries) =>
          entries.filterMap fun (name, node) =>
            match node with
            | .file content => some (name, .file content)
            | .dir _ =>
                let inner := here ++ [name]
                some (name, .dir (unfold tree bound (inner :: above) inner))
            | .link _ =>
                match tree.place true (.ofNames (here ++ [name])) with
                | .ok (.found _ (.file content)) => some (name, .file content)
                | .ok (.found names (.dir _)) =>
                    if above.contains names then none
                    else some (name, .dir (unfold tree bound (names :: above) names))
                | _ => none
      | _ => []

def entriesAt (tree : Tree) (followLinks : Bool) (names : List String) : List (String × Node) :=
  if followLinks then tree.unfold (tree.top.size + 1) [names] names
  else
    match tree.top.at? names with
    | some (.dir entries) => entries
    | _ => []

def pathOf (names : List String) : Path :=
  ⟨"/".intercalate names⟩

def outerLevels (tree : Tree) (names : List String) : List IgnoreLevel :=
  (List.range names.length).foldl
    (fun levels depth =>
      (IgnoreLevel.ofDir tree depth (.ofNames (names.take depth))).under levels)
    []

/-- The files below a directory that neither ignore files nor skipped directories hide, as paths
relative to it. -/
def files (tree : Tree) (skipDirs : List String) (followLinks : Bool) (root : Path) : List Path :=
  match tree.dirNames? root with
  | none => []
  | some base =>
      let level (here : List String) : IgnoreLevel :=
        IgnoreLevel.ofDir tree (base.length + here.length) (root.join (pathOf here))
      let pruning : Node.Pruning := ⟨skipDirs, base, level⟩
      (Node.filesAmong pruning ((level []).under (tree.outerLevels base)) []
        (tree.entriesAt followLinks base)).map pathOf

end Tree

end Scrutiny
