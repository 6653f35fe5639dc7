import Scrutiny.Preference.Log

/-!
Reviewing criticisms.  Accepting and rejecting change the state on the worklist and leave a
dated entry in the preference log; skipping changes the state alone.
-/

namespace Scrutiny

structure StateFiles where
  worklist : WorklistFile
  preferences : PreferenceFile
  deriving DecidableEq, Repr

inductive Verb
  | accept
  | reject
  | skip
  deriving DecidableEq, Repr

namespace Verb

def status : Verb → Status
  | accept => .accepted
  | reject => .rejected
  | skip => .skipped

/-- The decision that is remembered, if any. -/
def decision? : Verb → Option Decision
  | accept => some .accepted
  | reject => some .rejected
  | skip => none

end Verb

inductive ReviewOutcome
  | updated (criticism : Criticism)
  | notFound
  | unchanged
  deriving DecidableEq, Repr

namespace ReviewOutcome

def isUpdated : ReviewOutcome → Bool
  | updated _ => true
  | _ => false

def label : ReviewOutcome → String
  | updated _ => "updated"
  | notFound => "not_found"
  | unchanged => "unchanged"

end ReviewOutcome

def Criticism.entry (criticism : Criticism) (today : Date) (decision : Decision)
    (reasoning : Option String) : PreferenceEntry where
  date := today
  category := criticism.category
  subject := criticism.subject
  location := criticism.displayLocation
  reasoning := reasoning
  decision := decision

/-- Reviews the criticism with an identity.  Blank reasons count as none, and skipping takes
none. -/
def review (files : StateFiles) (today : Date) (verb : Verb) (id : String)
    (reason : Option String) : TreeStep WriteError ReviewOutcome := do
  let reasoning :=
    if verb = .skip then none else reason.filter fun text => !Text.isBlankText text.toList
  if ← files.worklist.setStatus id verb.status reasoning then
    match (files.worklist.load (← get)).get? id with
    | none => pure .notFound
    | some criticism =>
        match verb.decision? with
        | some decision => files.preferences.add (criticism.entry today decision reasoning)
        | none => pure ()
        pure (.updated criticism)
  else if (files.worklist.load (← get)).contains id then pure .unchanged
  else pure .notFound

end Scrutiny
