import Scrutiny.Text.Lines

/-!
Directory trees as values.  A node is a file, a directory or a symbolic link; a directory's
entries have distinct names.
-/

namespace Scrutiny

inductive Content
  | text (written : String)
  | binary (raw : ByteArray)
  deriving Inhabited

namespace Content

def ofBytes (bytes : ByteArray) : Content :=
  match String.fromUTF8? bytes with
  | some decoded => .text decoded
  | none => .binary bytes

def text? : Content → Option String
  | .text written => some written
  | .binary _ => none

def bytes : Content → ByteArray
  | .text written => written.toUTF8
  | .binary raw => raw

/-- The text of the longest run of whole lines, from the first on, that are text. -/
def leadingText : Content → List Char
  | .text written => written.toList
  | .binary raw =>
      let pieces := raw.toList.splitBy fun a _ => a != 10
      let decoded := pieces.map fun piece => String.fromUTF8? ⟨piece.toArray⟩
      ((decoded.takeWhile Option.isSome).filterMap id).flatMap String.toList

def firstLine? (content : Content) : Option (List Char) :=
  (Text.lines content.leadingText).head?

end Content

inductive Node
  | file (content : Content)
  | dir (entries : List (String × Node))
  | link (target : String)
  deriving Inhabited

namespace Node

def isDir : Node → Bool
  | dir _ => true
  | _ => false

def isFile : Node → Bool
  | file _ => true
  | _ => false

def isLink : Node → Bool
  | link _ => true
  | _ => false

def child? (name : String) : Node → Option Node
  | dir entries => entries.lookup name
  | _ => none

/-- The node that a list of names leads to, links not followed. -/
def at? : List String → Node → Option Node
  | [], node => some node
  | name :: names, node => (node.child? name).bind (at? names)

def putEntry (name : String) (node : Node) : List (String × Node) → List (String × Node)
  | [] => [(name, node)]
  | entry :: entries =>
      if entry.1 == name then (name, node) :: entries else entry :: putEntry name node entries

/-- Puts a node where a list of names leads.  Nothing changes unless all but the last name lead
to a directory. -/
def put (node : Node) : List String → Node → Node
  | [], new => new
  | name :: names, new =>
      match node with
      | dir entries =>
          match entries.lookup name with
          | some child => dir (putEntry name (put child names new) entries)
          | none => if names.isEmpty then dir (putEntry name new entries) else node
      | _ => node

def erase : List String → Node → Node
  | [], node => node
  | [name], dir entries => dir (entries.filter fun entry => entry.1 != name)
  | name :: names, node =>
      match node with
      | dir entries =>
          match entries.lookup name with
          | some child => dir (putEntry name (erase names child) entries)
          | none => node
      | _ => node

mutual

def size : Node → Nat
  | file _ => 1
  | link _ => 1
  | dir entries => 1 + entriesSize entries

def entriesSize : List (String × Node) → Nat
  | [] => 0
  | (_, node) :: entries => node.size + entriesSize entries

end

end Node

end Scrutiny
