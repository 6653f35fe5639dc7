import Mathlib.Tactic.Common

/-!
The first item of each key in a list, with what it takes for an item to be one.
-/

namespace Scrutiny

variable {α κ : Type} [BEq κ]

/-- Of the items with the same key only the first, given the keys seen before. -/
def firstsBy (key : α → κ) (seen : List κ) : List α → List α
  | [] => []
  | item :: items =>
      if seen.contains (key item) then firstsBy key seen items
      else item :: firstsBy key (key item :: seen) items

theorem firstsBy_sublist (key : α → κ) (seen : List κ) (items : List α) :
    (firstsBy key seen items).Sublist items := by
  induction items generalizing seen with
  | nil => exact List.Sublist.refl _
  | cons item items ih =>
    rw [firstsBy]
    split
    · exact (ih seen).cons item
    · exact (ih _).cons_cons item

/-- The first ones of a list's images are the images of the first ones. -/
theorem firstsBy_map {β : Type} (key : α → κ) (f : β → α) (seen : List κ) (items : List β) :
    firstsBy key seen (items.map f) = (firstsBy (fun b => key (f b)) seen items).map f := by
  induction items generalizing seen with
  | nil => rfl
  | cons item items ih =>
    rw [List.map_cons, firstsBy, firstsBy]
    split
    · exact ih seen
    · rw [ih, List.map_cons]

variable [LawfulBEq κ]

/-- An item is a first one exactly if its key was not seen, and no item before it has that key. -/
theorem mem_firstsBy {key : α → κ} {seen : List κ} {items : List α} {a : α} :
    a ∈ firstsBy key seen items ↔ key a ∉ seen ∧ ∃ front back, items = front ++ a :: back ∧
      ∀ b ∈ front, key b ≠ key a := by
  induction items generalizing seen with
  | nil => simp [firstsBy]
  | cons item items ih =>
    rw [firstsBy]
    split
    next hseen =>
      rw [List.contains_iff_mem] at hseen
      rw [ih]
      constructor
      · rintro ⟨hnew, front, back, rfl, hfront⟩
        refine ⟨hnew, item :: front, back, rfl, ?_⟩
        rw [List.forall_mem_cons]
        exact ⟨fun heq => hnew (heq ▸ hseen), hfront⟩
      · rintro ⟨hnew, front, back, hitems, hfront⟩
        cases front with
        | nil => exact absurd ((List.cons.inj hitems).1 ▸ hseen) hnew
        | cons b front =>
          exact ⟨hnew, front, back, (List.cons.inj hitems).2, (List.forall_mem_cons.mp hfront).2⟩
    next hseen =>
      rw [List.contains_iff_mem] at hseen
      rw [List.mem_cons, ih, List.mem_cons, not_or]
      constructor
      · rintro (rfl | ⟨⟨hne, hnew⟩, front, back, rfl, hfront⟩)
        · exact ⟨hseen, [], items, rfl, by simp⟩
        · refine ⟨hnew, item :: front, back, rfl, ?_⟩
          rw [List.forall_mem_cons]
          exact ⟨Ne.symm hne, hfront⟩
      · rintro ⟨hnew, front, back, hitems, hfront⟩
        cases front with
        | nil => exact Or.inl (List.cons.inj hitems).1.symm
        | cons b front =>
          obtain ⟨rfl, hrest⟩ := List.cons.inj hitems
          obtain ⟨hb, hfront⟩ := List.forall_mem_cons.mp hfront
          exact Or.inr ⟨⟨Ne.symm hb, hnew⟩, front, back, hrest, hfront⟩

/-- In a list in order, an item is the first of its key if no item of that key comes before it. -/
theorem mem_firstsBy_nil_of_pairwise {before : α → α → Prop} {key : α → κ} {items : List α} {a : α}
    (hpairs : items.Pairwise before) (hasymm : ∀ a b, before a b → ¬ before b a) :
    a ∈ firstsBy key [] items ↔ a ∈ items ∧ ∀ b ∈ items, key b = key a → ¬ before b a := by
  rw [mem_firstsBy]
  constructor
  · rintro ⟨-, front, back, rfl, hfront⟩
    refine ⟨by simp, fun b hb hkey hbefore => ?_⟩
    rcases List.mem_append.mp hb with hmem | hmem
    · exact hfront b hmem hkey
    · rcases List.mem_cons.mp hmem with rfl | hback
      · exact hasymm b b hbefore hbefore
      · have hlater := List.rel_of_pairwise_cons (List.pairwise_append.mp hpairs).2.1 hback
        exact hasymm a b hlater hbefore
  · rintro ⟨hmem, hfirst⟩
    obtain ⟨front, back, rfl⟩ := List.append_of_mem hmem
    refine ⟨List.not_mem_nil, front, back, rfl, fun b hb hkey => ?_⟩
    have hbefore : before b a := (List.pairwise_append.mp hpairs).2.2 b hb a List.mem_cons_self
    exact hfirst b (List.mem_append_left _ hb) hkey hbefore

-- No key is lost.
theorem exists_mem_firstsBy {key : α → κ} {seen : List κ} {items : List α} {a : α}
    (ha : a ∈ items) (hseen : key a ∉ seen) : ∃ b ∈ firstsBy key seen items, key b = key a := by
  induction items generalizing seen with
  | nil => exact absurd ha List.not_mem_nil
  | cons item items ih =>
    rw [firstsBy]
    by_cases hkey : key item = key a
    · rw [if_neg (by rwa [List.contains_iff_mem, hkey])]
      exact ⟨item, List.mem_cons_self, hkey⟩
    · have hmem : a ∈ items :=
        (List.mem_cons.mp ha).resolve_left fun heq => hkey (congrArg key heq.symm)
      split
      · exact ih hmem hseen
      · have hnew : key a ∉ key item :: seen :=
          List.not_mem_cons_of_ne_of_not_mem (Ne.symm hkey) hseen
        obtain ⟨b, hb, hkey'⟩ := ih hmem hnew
        exact ⟨b, List.mem_cons_of_mem _ hb, hkey'⟩

-- No key is left twice.
theorem pairwise_firstsBy (key : α → κ) (seen : List κ) (items : List α) :
    (firstsBy key seen items).Pairwise fun a b => key a ≠ key b := by
  induction items generalizing seen with
  | nil => exact List.Pairwise.nil
  | cons item items ih =>
    rw [firstsBy]
    split
    · exact ih seen
    · refine List.Pairwise.cons (fun b hb => ?_) (ih _)
      have hnew := (mem_firstsBy.mp hb).1
      exact fun heq => hnew (heq ▸ List.mem_cons_self)

-- Leaving out the keys seen before may be done first.
theorem firstsBy_eq_eraseDupsBy_filter (key : α → κ) (seen : List κ) (items : List α) :
    firstsBy key seen items =
      (items.filter fun item => !seen.contains (key item)).eraseDupsBy
        fun a b => key a == key b := by
  induction items generalizing seen with
  | nil => rfl
  | cons item items ih =>
    rw [firstsBy]
    split
    next hseen => rw [ih, List.filter_cons_of_neg (by simpa using hseen)]
    next hseen =>
      rw [ih, List.filter_cons_of_pos (by simpa using hseen), List.eraseDupsBy_cons,
        List.filter_filter]
      refine congrArg (fun rest => item :: List.eraseDupsBy _ rest)
        (List.filter_congr fun other _ => ?_)
      rw [Bool.eq_iff_iff]
      simp

/-- What is left is the list without repeated keys. -/
theorem firstsBy_nil_eq_eraseDupsBy (key : α → κ) (items : List α) :
    firstsBy key [] items = items.eraseDupsBy fun a b => key a == key b := by
  rw [firstsBy_eq_eraseDupsBy_filter, List.filter_eq_self.mpr (by simp)]

end Scrutiny
