import Scrutiny.CommandLine.Options
import Scrutiny.Review

/-!
What the program is asked to do: a command with its arguments, and the options of every command.
-/

namespace Scrutiny

inductive Command
  | analyze
  | watch
  | list (category : Option Category) (all : Bool) (json : Bool)
  | review (verb : Verb) (id : String) (reason : Option String)
  | rules
  /-- Show the identity that a finding would have. -/
  | identify (category : Category) (subject : String) (files : List String)
  deriving DecidableEq, Repr

structure Invocation where
  command : Command
  path : Path
  verbose : Bool
  noColor : Bool
  deriving DecidableEq, Repr

def programName : String := "critique"

def programVersion : String := "0.1.0"

/-! ## Reading -/

inductive CommandName
  | analyze
  | watch
  | list
  | review (verb : Verb)
  | rules
  | identify
  deriving DecidableEq, Repr

namespace CommandName

def all : List CommandName :=
  [analyze, watch, list, review .accept, review .reject, review .skip, rules, identify]

def text : CommandName → String
  | analyze => "analyze"
  | watch => "watch"
  | list => "list"
  | review .accept => "accept"
  | review .reject => "reject"
  | review .skip => "skip"
  | rules => "rules"
  | identify => "id"

def ofText? (text : String) : Option CommandName :=
  all.find? fun name => name.text == text

def options : CommandName → List OptionName
  | list => [.category, .all, .json]
  | review .accept => [.reason]
  | review .reject => [.reason]
  | _ => []

def admitsWord : CommandName → Nat → String → Bool
  | review _, before, _ => before == 0
  | identify, 0, word => (Category.parse word).toOption.isSome
  | identify, _, _ => true
  | _, _, _ => false

def reader (name : CommandName) : OptionReader where
  name := s!"{programName}-{name.text}"
  known := OptionName.everywhere ++ name.options
  admits option value :=
    option != .category || (Category.parse value).toOption.isSome
  admitsWord := name.admitsWord

def command? (name : CommandName) (given : Given) (words : List String) : Option Command :=
  match name, words with
  | analyze, [] => some .analyze
  | watch, [] => some .watch
  | list, [] =>
      let category := (given.value? .category).bind fun text => (Category.parse text).toOption
      some (.list category (given.has .all) (given.has .json))
  | review verb, [id] => some (.review verb id (given.value? .reason))
  | rules, [] => some .rules
  | identify, category :: subject :: files => do
      let category ← (Category.parse category).toOption
      pure (.identify category subject files)
  | _, _ => none

end CommandName

namespace Invocation

def reader : OptionReader where
  name := programName
  known := OptionName.everywhere
  admits _ _ := true
  admitsWord _ _ := true

def help (words : List String) : Refusal :=
  match words with
  | [] => .helpAsked
  | ["help"] => .helpAsked
  | [word] => if (CommandName.ofText? word).isSome then .helpAsked else .invalid
  | _ => .invalid

/-- Reads a command line.  Options given after the command's name count before those given
before it; where no path is given, the fallback counts. -/
def parse (fallback : Path) (arguments : List String) : Except Refusal Invocation := do
  let (outer, word, rest) ← reader.readToWord {} arguments
  if word == "help" then .error (help rest)
  else
    match CommandName.ofText? word with
    | none => .error .invalid
    | some name =>
        let progress ← name.reader.read {} rest
        match name.command? progress.given progress.words with
        | none => .error .invalid
        | some command =>
            let given := progress.given ++ outer
            .ok {
              command := command
              path := ((given.value? .path).map Path.mk).getD fallback
              verbose := given.has .verbose
              noColor := given.has .noColor
            }

end Invocation

end Scrutiny
