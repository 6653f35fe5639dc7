import Scrutiny.Text.Lines

/-!
JSON values as documents hold them: objects keep the order and the repetitions of their
members, numbers keep their spelling, and a string literal that names half of a surrogate pair
denotes no text.  The second half of the module reads records, labels and fields off a value.
-/

namespace Scrutiny

/-- A JSON value.  `none` stands for a string literal that denotes no text. -/
inductive Json
  | null
  | bool (value : Bool)
  | number (spelling : List Char)
  | string (text : Option String)
  | array (items : List Json)
  | object (members : List (Option String × Json))
  deriving Inhabited

namespace Json

def text (content : String) : Json :=
  .string (some content)

def nat (value : Nat) : Json :=
  .number (Nat.toDigits 10 value)

def ofMembers (members : List (String × Json)) : Json :=
  .object (members.map fun (name, value) => (some name, value))

/-! ## Reading records -/

def named (name : String) (members : List (Option String × Json)) : List Json :=
  members.filterMap fun (key, value) => if key == some name then some value else none

/-- The values of a record's fields, in the order of `names`, `none` for each missing one.  A
record is written as an object, which may hold further members but none of these twice, or as
an array of at most as many values, taken in order. -/
def record? (names : List String) : Json → Option (List (Option Json))
  | .object members =>
      if members.all (fun member => member.1.isSome) &&
          names.all (fun name => (named name members).length ≤ 1) then
        some (names.map fun name => (named name members).head?)
      else none
  | .array items =>
      if items.length ≤ names.length then
        some (items.map some ++ List.replicate (names.length - items.length) none)
      else none
  | _ => none

/-- The label of a choice: a string, or an object whose only member has the value `null`. -/
def label? : Json → Option String
  | .string text => text
  | .object [(some name, .null)] => some name
  | _ => none

def string? : Json → Option String
  | .string text => text
  | _ => none

def bool? : Json → Option Bool
  | .bool value => some value
  | _ => none

/-- A number without sign, fraction and exponent that fits in sixty-four bits. -/
def natural? : Json → Option Nat
  | .number spelling =>
      if spelling.all Text.isAsciiDigit then
        let value := spelling.foldl (fun n c => 10 * n + (c.toNat - 48)) 0
        if value < UInt64.size then some value else none
      else none
  | _ => none

def list? {α : Type} (read : Json → Option α) : Json → Option (List α)
  | .array items => items.mapM read
  | _ => none

def nullable? {α : Type} (read : Json → Option α) : Json → Option (Option α)
  | .null => some none
  | value => (read value).map some

def required? {α : Type} (read : Json → Option α) : Option Json → Option α
  | some value => read value
  | none => none

def defaulted? {α : Type} (default : α) (read : Json → Option α) : Option Json → Option α
  | some value => read value
  | none => some default

end Json

end Scrutiny
