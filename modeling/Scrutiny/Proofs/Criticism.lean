import Mathlib.Tactic.Common
import Scrutiny.Criticism

/-!
Criticisms and what may become of them: labels are read back, and a record keeps its identity and
its time of creation and never returns to pending.
-/

namespace Scrutiny

/-! ## 1. Labels -/

theorem Category.ofLabel?_label (category : Category) :
    Category.ofLabel? category.label = some category := by
  cases category <;> rfl

theorem Severity.ofLabel?_label (severity : Severity) :
    Severity.ofLabel? severity.label = some severity := by
  cases severity <;> rfl

theorem Status.ofLabel?_label (status : Status) : Status.ofLabel? status.label = some status := by
  cases status <;> rfl

namespace Criticism

/-! ## 2. Identities -/

/-- The identity is that of the category, subject and files. -/
def IsIdentified (criticism : Criticism) : Prop :=
  criticism.id =
    Identity.of criticism.category criticism.subject (criticism.files.map Path.text)

theorem isIdentified_record (finding : Finding) (now : Instant) :
    (finding.record now).IsIdentified := rfl

/-! ## 3. What may become of a record -/

/-- The new record may have become of the old one. -/
structure Evolves (old new : Criticism) : Prop where
  id : new.id = old.id
  createdAt : new.createdAt = old.createdAt
  reviewed : old.status ≠ .pending → new.status ≠ .pending

theorem Evolves.refl (criticism : Criticism) : criticism.Evolves criticism :=
  ⟨rfl, rfl, fun h => h⟩

theorem Evolves.trans {first second third : Criticism} (h : first.Evolves second)
    (h' : second.Evolves third) : first.Evolves third :=
  ⟨h'.id.trans h.id, h'.createdAt.trans h.createdAt, fun hs => h'.reviewed (h.reviewed hs)⟩

/-- Every state may be entered but pending, and nothing but state and reasoning changes. -/
theorem setStatus?_eq_some {criticism moved : Criticism} {status : Status}
    {reasoning : Option String} (h : criticism.setStatus? status reasoning = some moved) :
    status ≠ .pending ∧ moved = { criticism with
      status := status
      reasoning := reasoning.orElse fun _ => criticism.reasoning } := by
  rw [setStatus?] at h
  split at h
  next hmay =>
    rw [Option.some.injEq] at h
    refine ⟨?_, h.symm⟩
    rintro rfl
    simp [Status.mayBecome, Status.isPending] at hmay
  next => exact absurd h (by simp)

theorem evolves_of_setStatus? {criticism moved : Criticism} {status : Status}
    {reasoning : Option String} (h : criticism.setStatus? status reasoning = some moved) :
    criticism.Evolves moved := by
  obtain ⟨hstatus, rfl⟩ := setStatus?_eq_some h
  exact ⟨rfl, rfl, fun _ => hstatus⟩

end Criticism

end Scrutiny
