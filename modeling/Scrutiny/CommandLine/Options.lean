import Scrutiny.Text.Lines

/-!
Options on a command line.  `--name value`, `--name=value`, `-n value`, `-nvalue` and `-n=value`
mean the same, short switches may be joined, and `--` ends the options.  An option is given at
most once, and a value that stands apart does not begin with a dash unless it is one.
-/

namespace Scrutiny

inductive OptionName
  | path
  | verbose
  | noColor
  | category
  | all
  | json
  | reason
  | help
  | version
  deriving DecidableEq, Repr

namespace OptionName

def long : OptionName → String
  | path => "path"
  | verbose => "verbose"
  | noColor => "no-color"
  | category => "category"
  | all => "all"
  | json => "json"
  | reason => "reason"
  | help => "help"
  | version => "version"

def short? : OptionName → Option Char
  | path => some 'p'
  | verbose => some 'v'
  | category => some 'c'
  | all => some 'a'
  | reason => some 'r'
  | help => some 'h'
  | version => some 'V'
  | noColor => none
  | json => none

def takesValue : OptionName → Bool
  | path => true
  | category => true
  | reason => true
  | _ => false

def everywhere : List OptionName := [path, verbose, noColor, help, version]

def ofLong? (known : List OptionName) (name : List Char) : Option OptionName :=
  known.find? fun option => option.long.toList == name

def ofShort? (known : List OptionName) (name : Char) : Option OptionName :=
  known.find? fun option => option.short? == some name

end OptionName

inductive Refusal
  | invalid
  | helpAsked
  | versionAsked (name : String)
  deriving DecidableEq, Repr

/-- The options given so far, with their values; switches have an empty one. -/
abbrev Given : Type := List (OptionName × String)

namespace Given

def value? (given : Given) (option : OptionName) : Option String :=
  given.lookup option

def has (given : Given) (option : OptionName) : Bool :=
  (given.value? option).isSome

end Given

structure OptionReader where
  name : String
  known : List OptionName
  admits : OptionName → String → Bool
  admitsWord : Nat → String → Bool

structure Progress where
  given : Given := []
  awaiting : Option OptionName := none
  words : List String := []
  isEnded : Bool := false
  deriving DecidableEq, Repr

namespace OptionReader

/-- Adds an option.  Asking for help or for the version ends everything. -/
def give (reader : OptionReader) (progress : Progress) (option : OptionName) (value : String) :
    Except Refusal Progress :=
  match option with
  | .help => .error .helpAsked
  | .version => .error (.versionAsked reader.name)
  | option =>
      if progress.given.has option || !reader.admits option value then .error .invalid
      else .ok { progress with given := progress.given ++ [(option, value)], awaiting := none }

/-- Adds a word.  A word that does not belong ends everything, so that what follows it, be it a
call for help, is not looked at. -/
def addWord (reader : OptionReader) (progress : Progress) (word : String) :
    Except Refusal Progress :=
  if reader.admitsWord progress.words.length word then
    .ok { progress with words := progress.words ++ [word] }
  else .error .invalid

def await (progress : Progress) (option : OptionName) : Except Refusal Progress :=
  .ok { progress with awaiting := some option }

def readLong (reader : OptionReader) (progress : Progress) (text : List Char) :
    Except Refusal Progress :=
  let (name, value) := text.span (· != '=')
  match OptionName.ofLong? reader.known name, value with
  | none, _ => .error .invalid
  | some option, [] =>
      if option.takesValue then await progress option else reader.give progress option ""
  | some option, _ :: value =>
      if option.takesValue then reader.give progress option (String.ofList value)
      else .error .invalid

def readShort (reader : OptionReader) (progress : Progress) :
    List Char → Except Refusal Progress
  | [] => .ok progress
  | name :: text =>
      match OptionName.ofShort? reader.known name with
      | none => .error .invalid
      | some option =>
          if option.takesValue then
            match text with
            | [] => await progress option
            | '=' :: value => reader.give progress option (String.ofList value)
            | value => reader.give progress option (String.ofList value)
          else
            match reader.give progress option "" with
            | .ok progress => readShort reader progress text
            | .error refusal => .error refusal

def isDashed : List Char → Bool
  | '-' :: _ :: _ => true
  | _ => false

def step (reader : OptionReader) (progress : Progress) (argument : String) :
    Except Refusal Progress :=
  match progress.awaiting with
  | some option =>
      if isDashed argument.toList then .error .invalid
      else reader.give progress option argument
  | none =>
      if progress.isEnded then reader.addWord progress argument
      else
        match argument.toList with
        | ['-', '-'] => .ok { progress with isEnded := true }
        | '-' :: '-' :: text => reader.readLong progress text
        | '-' :: c :: text => reader.readShort progress (c :: text)
        | _ => reader.addWord progress argument

def read (reader : OptionReader) (progress : Progress) :
    List String → Except Refusal Progress
  | [] => if progress.awaiting.isSome then .error .invalid else .ok progress
  | argument :: arguments => do
      let progress ← reader.step progress argument
      read reader progress arguments

/-- Reads options up to the first word, and gives the options, the word and what follows it. -/
def readToWord (reader : OptionReader) (progress : Progress) :
    List String → Except Refusal (Given × String × List String)
  | [] => .error .invalid
  | argument :: arguments => do
      let progress ← reader.step progress argument
      match progress.words with
      | [] => readToWord reader progress arguments
      | word :: _ =>
          if progress.isEnded then .error .invalid else .ok (progress.given, word, arguments)

end OptionReader

end Scrutiny
