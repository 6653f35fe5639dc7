import Mathlib.Data.List.Nodup
import Scrutiny.Proofs.Worklist.Document

/-!
The history of a worklist.  Whatever is done with a worklist, its records stay where they are, and
new ones come after them; no identity is there twice, and every record has its own.
-/

namespace Scrutiny.Worklist

/-! ## 1. Sound worklists -/

/-- The identities of the records, in order. -/
def ids (worklist : Worklist) : List String :=
  worklist.criticisms.map Criticism.id

/-- No identity is there twice, every record has its own, and all instants are instants that there
are. -/
structure IsSound (worklist : Worklist) : Prop where
  dated : worklist.IsDated
  nodup : worklist.ids.Nodup
  identified : ∀ criticism ∈ worklist.criticisms, criticism.IsIdentified

theorem isSound_empty : empty.IsSound :=
  ⟨isDated_empty, List.nodup_nil, by simp [empty]⟩

/-- Every record is still where it was, as what has become of it. -/
def Extends (old new : Worklist) : Prop :=
  ∀ (index : Nat) (before : Criticism), old.criticisms[index]? = some before →
    ∃ after, new.criticisms[index]? = some after ∧ before.Evolves after

theorem Extends.refl (worklist : Worklist) : worklist.Extends worklist :=
  fun _ before h => ⟨before, h, .refl before⟩

theorem Extends.trans {first second third : Worklist} (h : first.Extends second)
    (h' : second.Extends third) : first.Extends third := by
  intro index before hbefore
  obtain ⟨between, hbetween, hevolves⟩ := h index before hbefore
  obtain ⟨after, hafter, hevolves'⟩ := h' index between hbetween
  exact ⟨after, hafter, hevolves.trans hevolves'⟩

/-- The identities that there were are the first of those that there are. -/
theorem Extends.ids_prefix {old new : Worklist} (h : old.Extends new) : old.ids <+: new.ids := by
  rw [List.prefix_iff_getElem?]
  intro index hindex
  rw [ids, List.length_map] at hindex
  obtain ⟨after, hafter, hevolves⟩ := h index _ (List.getElem?_eq_getElem hindex)
  simp [ids, hafter, hevolves.id]

/-- A record with an identity that there was has evolved from it. -/
theorem Extends.evolves {old new : Worklist} (h : old.Extends new) (hnodup : new.ids.Nodup)
    {before after : Criticism} (hbefore : before ∈ old.criticisms)
    (hafter : after ∈ new.criticisms) (hid : after.id = before.id) : before.Evolves after := by
  obtain ⟨index, hindex⟩ := List.mem_iff_getElem?.mp hbefore
  obtain ⟨found, hfound, hevolves⟩ := h index before hindex
  have hsame : found = after :=
    List.inj_on_of_nodup_map hnodup (List.mem_of_getElem? hfound) hafter
      (hevolves.id.trans hid.symm)
  exact hsame ▸ hevolves

/-! ## 2. Changing one record -/

section ChangeFirst

variable (holds : Criticism → Bool) (change : Criticism → Criticism)

-- Each record stays where it is; one of them may be changed.
theorem getElem?_changeFirst {criticisms : List Criticism} {index : Nat} {before : Criticism}
    (h : criticisms[index]? = some before) :
    ∃ after, (changeFirst holds change criticisms)[index]? = some after ∧
      (after = before ∨ holds before = true ∧ after = change before) := by
  induction criticisms generalizing index with
  | nil => simp at h
  | cons criticism rest ih =>
    rw [changeFirst]
    by_cases hholds : holds criticism = true
    · rw [if_pos hholds]
      cases index with
      | zero =>
        rw [List.getElem?_cons_zero, Option.some.injEq] at h
        subst h
        exact ⟨change criticism, rfl, Or.inr ⟨hholds, rfl⟩⟩
      | succ index => exact ⟨before, by simpa using h, Or.inl rfl⟩
    · rw [if_neg hholds]
      cases index with
      | zero => exact ⟨before, by simpa using h, Or.inl rfl⟩
      | succ index => exact ih (by simpa using h)

theorem length_changeFirst (criticisms : List Criticism) :
    (changeFirst holds change criticisms).length = criticisms.length := by
  induction criticisms with
  | nil => rfl
  | cons criticism rest ih =>
    rw [changeFirst]
    split
    · rfl
    · rw [List.length_cons, ih, List.length_cons]

theorem mem_changeFirst {holds : Criticism → Bool} {change : Criticism → Criticism}
    {criticisms : List Criticism} {after : Criticism}
    (h : after ∈ changeFirst holds change criticisms) :
    ∃ before ∈ criticisms, after = before ∨ holds before = true ∧ after = change before := by
  obtain ⟨index, hindex⟩ := List.mem_iff_getElem?.mp h
  have hlength := (List.getElem?_eq_some_iff.mp hindex).1
  rw [length_changeFirst] at hlength
  obtain ⟨found, hfound, hcases⟩ :=
    getElem?_changeFirst holds change (List.getElem?_eq_getElem hlength)
  rw [hindex, Option.some.injEq] at hfound
  exact ⟨_, List.getElem_mem hlength, hfound ▸ hcases⟩

theorem map_changeFirst {β : Type} (f : Criticism → β) {criticisms : List Criticism}
    (h : ∀ criticism ∈ criticisms, holds criticism = true → f (change criticism) = f criticism) :
    (changeFirst holds change criticisms).map f = criticisms.map f := by
  induction criticisms with
  | nil => rfl
  | cons criticism rest ih =>
    rw [List.forall_mem_cons] at h
    rw [changeFirst]
    by_cases hholds : holds criticism = true
    · rw [if_pos hholds, List.map_cons, List.map_cons, h.1 hholds]
    · rw [if_neg hholds, List.map_cons, List.map_cons, ih h.2]

end ChangeFirst

-- A worklist in which one record has evolved.
theorem extends_changeFirst {worklist new : Worklist} {holds : Criticism → Bool}
    {change : Criticism → Criticism}
    (hnew : new.criticisms = changeFirst holds change worklist.criticisms)
    (h : ∀ criticism ∈ worklist.criticisms, holds criticism = true →
      criticism.Evolves (change criticism)) : worklist.Extends new := by
  intro index before hbefore
  obtain ⟨after, hafter, hcases⟩ := getElem?_changeFirst holds change hbefore
  refine ⟨after, hnew ▸ hafter, ?_⟩
  rcases hcases with rfl | ⟨hholds, rfl⟩
  · exact .refl after
  · exact h before (List.mem_of_getElem? hbefore) hholds

theorem isDated_changeFirst {worklist : Worklist} (hdated : worklist.IsDated)
    {holds : Criticism → Bool} {change : Criticism → Criticism}
    (h : ∀ criticism ∈ worklist.criticisms, holds criticism = true →
      (change criticism).createdAt = criticism.createdAt) :
    IsDated { worklist with criticisms := changeFirst holds change worklist.criticisms } := by
  refine ⟨?_, hdated.lastAnalysis⟩
  intro after hafter
  obtain ⟨before, hbefore, rfl | ⟨hholds, rfl⟩⟩ := mem_changeFirst hafter
  · exact hdated.criticisms after hbefore
  · rw [h before hbefore hholds]
    exact hdated.criticisms before hbefore

theorem isSound_changeFirst {worklist : Worklist} (hsound : worklist.IsSound)
    {holds : Criticism → Bool} {change : Criticism → Criticism}
    (h : ∀ criticism ∈ worklist.criticisms, holds criticism = true →
      criticism.Evolves (change criticism) ∧ (change criticism).IsIdentified) :
    IsSound { worklist with criticisms := changeFirst holds change worklist.criticisms } := by
  refine ⟨isDated_changeFirst hsound.dated fun criticism hc hholds =>
    (h criticism hc hholds).1.createdAt, ?_, ?_⟩
  · rw [ids, map_changeFirst holds change Criticism.id fun criticism hc hholds =>
      (h criticism hc hholds).1.id]
    exact hsound.nodup
  · intro after hafter
    obtain ⟨before, hbefore, rfl | ⟨hholds, rfl⟩⟩ := mem_changeFirst hafter
    · exact hsound.identified after hbefore
    · exact (h before hbefore hholds).2

/-! ## 3. Operations -/

theorem contains_eq_true {worklist : Worklist} {id : String} :
    worklist.contains id = true ↔ id ∈ worklist.ids := by
  simp [contains, get?, ids, List.find?_isSome]

-- A finding that is made again leaves the review state of its record alone.
theorem evolves_refresh {new old : Criticism} (h : old.id = new.id) :
    old.Evolves (refresh new old) :=
  ⟨h.symm, rfl, fun hstatus => hstatus⟩

theorem isDated_insert {worklist : Worklist} (hdated : worklist.IsDated) {criticism : Criticism}
    (hdate : criticism.createdAt.isValid = true) : (worklist.insert criticism).IsDated := by
  rw [insert]
  by_cases hcontains : worklist.contains criticism.id = true
  · rw [if_pos hcontains]
    exact isDated_changeFirst hdated fun _ _ _ => rfl
  · rw [if_neg hcontains]
    refine ⟨?_, hdated.lastAnalysis⟩
    rw [List.forall_mem_append]
    exact ⟨hdated.criticisms, by simpa using hdate⟩

theorem isDated_insertAll {worklist : Worklist} (hdated : worklist.IsDated)
    {criticisms : List Criticism} (h : ∀ c ∈ criticisms, c.createdAt.isValid = true) :
    (worklist.insertAll criticisms).IsDated := by
  induction criticisms generalizing worklist with
  | nil => exact hdated
  | cons criticism criticisms ih =>
    rw [List.forall_mem_cons] at h
    exact ih (isDated_insert hdated h.1) h.2

theorem isSound_insert {worklist : Worklist} (hsound : worklist.IsSound) {criticism : Criticism}
    (hid : criticism.IsIdentified) (hdate : criticism.createdAt.isValid = true) :
    (worklist.insert criticism).IsSound := by
  have hdated := isDated_insert hsound.dated hdate
  rw [insert] at hdated ⊢
  by_cases hcontains : worklist.contains criticism.id = true
  · rw [if_pos hcontains]
    apply isSound_changeFirst hsound
    intro old hold hsame
    exact ⟨evolves_refresh (by simpa using hsame), hid⟩
  · -- no record has the identity, so the new record comes last
    rw [if_neg hcontains] at hdated ⊢
    refine ⟨hdated, ?_, ?_⟩
    · rw [contains_eq_true] at hcontains
      rw [ids, List.map_append, List.map_singleton, List.nodup_append]
      refine ⟨hsound.nodup, List.nodup_singleton _, ?_⟩
      intro id hmem other hother
      rw [List.mem_singleton.mp hother]
      rintro rfl
      exact hcontains hmem
    · rw [List.forall_mem_append]
      exact ⟨hsound.identified, by simpa using hid⟩

theorem extends_insert (worklist : Worklist) (criticism : Criticism) :
    worklist.Extends (worklist.insert criticism) := by
  rw [insert]
  by_cases hcontains : worklist.contains criticism.id = true
  · rw [if_pos hcontains]
    exact extends_changeFirst rfl fun old _ hsame => evolves_refresh (by simpa using hsame)
  · rw [if_neg hcontains]
    intro index before hbefore
    have hlength := (List.getElem?_eq_some_iff.mp hbefore).1
    exact ⟨before, by rw [List.getElem?_append_left hlength, hbefore], .refl before⟩

/-- Adding criticisms keeps a worklist sound and its records in place. -/
theorem insertAll_history {worklist : Worklist} (hsound : worklist.IsSound)
    {criticisms : List Criticism} (h : ∀ criticism ∈ criticisms,
      criticism.IsIdentified ∧ criticism.createdAt.isValid = true) :
    (worklist.insertAll criticisms).IsSound ∧
      worklist.Extends (worklist.insertAll criticisms) := by
  induction criticisms generalizing worklist with
  | nil => exact ⟨hsound, .refl worklist⟩
  | cons criticism criticisms ih =>
    rw [List.forall_mem_cons] at h
    obtain ⟨hafter, hextends⟩ := ih (isSound_insert hsound h.1.1 h.1.2) h.2
    exact ⟨hafter, (extends_insert worklist criticism).trans hextends⟩

/-- The records with an identity. -/
def withId (worklist : Worklist) (id : String) : List Criticism :=
  worklist.criticisms.filter fun criticism => criticism.id == id

-- Adding a criticism leaves the records with other identities alone.
theorem withId_insert (worklist : Worklist) {criticism : Criticism} {id : String}
    (h : criticism.id ≠ id) : (worklist.insert criticism).withId id = worklist.withId id := by
  rw [insert]
  by_cases hcontains : worklist.contains criticism.id = true
  · -- the record that is refreshed has the new one's identity before and after
    rw [if_pos hcontains, withId, withId]
    dsimp only
    induction worklist.criticisms with
    | nil => rfl
    | cons old rest ih =>
      rw [changeFirst]
      by_cases hold : (old.id == criticism.id) = true
      · have hother : old.id ≠ id := (beq_iff_eq.mp hold).symm ▸ h
        rw [if_pos hold, List.filter_cons_of_neg (by simpa [refresh] using h),
          List.filter_cons_of_neg (by simpa using hother)]
      · rw [if_neg hold, List.filter_cons, List.filter_cons, ih]
  · rw [if_neg hcontains, withId, withId, List.filter_append,
      List.filter_cons_of_neg (by simpa using h), List.filter_nil, List.append_nil]

theorem withId_insertAll (worklist : Worklist) {criticisms : List Criticism} {id : String}
    (h : ∀ criticism ∈ criticisms, criticism.id ≠ id) :
    (worklist.insertAll criticisms).withId id = worklist.withId id := by
  induction criticisms generalizing worklist with
  | nil => rfl
  | cons criticism criticisms ih =>
    rw [List.forall_mem_cons] at h
    exact (ih (worklist.insert criticism) h.2).trans (withId_insert worklist h.1)

/-- So does moving a criticism to another state. -/
theorem setStatus?_history {worklist moved : Worklist} (hsound : worklist.IsSound) {id : String}
    {status : Status} {reasoning : Option String}
    (h : worklist.setStatus? id status reasoning = some moved) :
    moved.IsSound ∧ worklist.Extends moved := by
  obtain ⟨criticism, hget, h⟩ := Option.bind_eq_some_iff.mp h
  obtain ⟨changed, hchanged, h⟩ := Option.bind_eq_some_iff.mp h
  have hmoved : { worklist with
      criticisms := changeFirst (fun old => old.id == id) (fun _ => changed)
        worklist.criticisms } = moved := Option.some.inj h
  subst hmoved
  have hmem : criticism ∈ worklist.criticisms := List.mem_of_find?_eq_some hget
  have hid : criticism.id = id := by simpa using List.find?_some hget
  -- the record with the identity is the one that was found
  have hevolves : ∀ old ∈ worklist.criticisms, (old.id == id) = true →
      old.Evolves changed ∧ changed.IsIdentified := by
    intro old hold hsame
    have hfound : old = criticism :=
      List.inj_on_of_nodup_map hsound.nodup hold hmem ((beq_iff_eq.mp hsame).trans hid.symm)
    subst hfound
    refine ⟨Criticism.evolves_of_setStatus? hchanged, ?_⟩
    rw [(Criticism.setStatus?_eq_some hchanged).2]
    exact hsound.identified old hmem
  exact ⟨isSound_changeFirst hsound hevolves,
    extends_changeFirst rfl fun old hold hsame => (hevolves old hold hsame).1⟩

theorem isDated_stamp {worklist : Worklist} (hdated : worklist.IsDated) {now : Instant}
    (hnow : now.isValid = true) : (worklist.stamp now).IsDated := by
  refine ⟨hdated.criticisms, fun instant hinstant => ?_⟩
  rw [stamp, Option.mem_some] at hinstant
  exact hinstant ▸ hnow

theorem stamp_history {worklist : Worklist} (hsound : worklist.IsSound) {now : Instant}
    (hnow : now.isValid = true) :
    (worklist.stamp now).IsSound ∧ worklist.Extends (worklist.stamp now) :=
  ⟨⟨isDated_stamp hsound.dated hnow, hsound.nodup, hsound.identified⟩, Extends.refl worklist⟩

end Scrutiny.Worklist
