import Mathlib.Data.List.Basic
import Mathlib.Data.String.Basic
import Scrutiny.Finding

/-!
What identities tell apart.  The label of the category, the subject and the list of files stand
one after the other in the bytes of an identity, with no mark between them.  So the category is
always told, the order of the files never, and a subject only up to where the files begin.
-/

namespace Scrutiny.Identity

/-! ## 1. The bytes of a text -/

theorem toList_bytes (bytes : ByteArray) : bytes.toList = bytes.data.toList := by
  suffices h : ∀ i front,
      ByteArray.toList.loop bytes i front = front.reverse ++ bytes.data.toList.drop i by
    rw [ByteArray.toList, h]
    rfl
  intro i front
  induction i, front using ByteArray.toList.loop.induct bytes with
  | case1 i front hi ih =>
    have hlength : i < bytes.data.toList.length := hi
    have hget : bytes.get! i = bytes.data.toList[i] := by
      rw [Array.getElem_toList]
      exact getElem!_pos bytes.data i hi
    rw [ByteArray.toList.loop, if_pos hi, ih, hget, List.reverse_cons, List.append_assoc,
      List.singleton_append, List.getElem_cons_drop]
  | case2 i front hi =>
    have hlength : bytes.data.toList.length ≤ i := Nat.le_of_not_lt hi
    rw [ByteArray.toList.loop, if_neg hi, List.drop_eq_nil_of_le hlength, List.append_nil]

theorem toUTF8_append (a b : String) :
    (a ++ b).toUTF8.toList = a.toUTF8.toList ++ b.toUTF8.toList := by
  simp only [toList_bytes, String.toUTF8, String.toByteArray_append,
    ByteArray.toList_data_append]

theorem toUTF8_inj {a b : String} : a.toUTF8.toList = b.toUTF8.toList ↔ a = b := by
  constructor
  · intro h
    rw [toList_bytes, toList_bytes] at h
    exact String.toByteArray_inj.mp (ByteArray.ext (Array.toList_inj.mp h))
  · rintro rfl
    rfl

/-! ## 2. What stands in front -/

-- Labels begin with different letters, so a text with one in front tells which it is.
theorem label_append_inj {c₁ c₂ : Category} {a b : String} :
    c₁.label ++ a = c₂.label ++ b ↔ c₁ = c₂ ∧ a = b := by
  constructor
  · intro h
    have hchars : c₁.label.toList ++ a.toList = c₂.label.toList ++ b.toList := by
      simpa using congrArg String.toList h
    have hcategory : c₁ = c₂ := by
      have hhead := congrArg List.head? hchars
      cases c₁ <;> cases c₂ <;> first | rfl | simp [Category.label] at hhead
    subst hcategory
    exact ⟨rfl, String.toList_inj.mp (List.append_cancel_left hchars)⟩
  · rintro ⟨rfl, rfl⟩
    rfl

/-! ## 3. The list of files -/

/-- The files as they stand in the bytes of an identity. -/
def listed (files : List String) : String :=
  joinWith "," (sortTexts files)

theorem sortTexts_perm (files : List String) : (sortTexts files).Perm files :=
  List.mergeSort_perm _ _

theorem pairwise_sortTexts (files : List String) : (sortTexts files).Pairwise (· ≤ ·) := by
  have hsorted : (sortTexts files).Pairwise fun a b => decide (a ≤ b) = true :=
    List.pairwise_mergeSort
      (fun a b c hab hbc => by simpa using le_trans (of_decide_eq_true hab) (of_decide_eq_true hbc))
      (fun a b => by simpa using le_total a b) files
  exact hsorted.imp of_decide_eq_true

-- Sorting forgets the order that the files were given in.
theorem sortTexts_congr {files₁ files₂ : List String} (h : files₂.Perm files₁) :
    sortTexts files₁ = sortTexts files₂ := by
  refine List.Perm.eq_of_pairwise (fun _ _ _ _ => le_antisymm) (pairwise_sortTexts _)
    (pairwise_sortTexts _) ?_
  exact (sortTexts_perm _).trans (h.symm.trans (sortTexts_perm _).symm)

theorem toList_listed (files : List String) :
    (listed files).toList = [','].intercalate ((sortTexts files).map String.toList) := by
  rw [listed, joinWith, String.toList_intercalate]
  rfl

theorem splitOn_listed {files : List String} (hfiles : files ≠ [])
    (hcomma : ∀ file ∈ files, ',' ∉ file.toList) :
    (listed files).toList.splitOn ',' = (sortTexts files).map String.toList := by
  rw [toList_listed]
  refine List.splitOn_intercalate ',' ?_ ?_
  · rw [List.forall_mem_map]
    exact fun file hfile => hcomma file ((sortTexts_perm files).mem_iff.mp hfile)
  · rw [ne_eq, List.map_eq_nil_iff]
    exact fun h => hfiles (List.nil_perm.mp (h ▸ sortTexts_perm files))

-- Names without commas can be read back from their list.
theorem perm_of_listed_eq {files₁ files₂ : List String} (hempty : files₁ = [] ↔ files₂ = [])
    (hcomma : ∀ file ∈ files₁ ++ files₂, ',' ∉ file.toList)
    (h : listed files₁ = listed files₂) : files₂.Perm files₁ := by
  rw [List.forall_mem_append] at hcomma
  by_cases hnil : files₁ = []
  · rw [hnil, hempty.mp hnil]
  · have hsplit := splitOn_listed hnil hcomma.1
    rw [h, splitOn_listed (mt hempty.mpr hnil) hcomma.2] at hsplit
    have hsorted : sortTexts files₂ = sortTexts files₁ :=
      List.map_injective_iff.mpr (fun _ _ => String.toList_inj.mp) hsplit
    exact (sortTexts_perm files₂).symm.trans (hsorted ▸ sortTexts_perm files₁)

/-! ## 4. Identities -/

theorem bytes_eq_toUTF8 (category : Category) (subject : String) (files : List String) :
    bytes category subject files =
      (category.label ++ (subject ++ listed files)).toUTF8.toList := by
  rw [toUTF8_append, toUTF8_append, ← List.append_assoc]
  rfl

theorem bytes_inj {c₁ c₂ : Category} {s₁ s₂ : String} {files₁ files₂ : List String} :
    bytes c₁ s₁ files₁ = bytes c₂ s₂ files₂ ↔
      c₁ = c₂ ∧ s₁ ++ listed files₁ = s₂ ++ listed files₂ := by
  rw [bytes_eq_toUTF8, bytes_eq_toUTF8, toUTF8_inj, label_append_inj]

/-- Nothing in two findings can be taken for something else: neither subject goes on where the
other ends, no file has a comma, and if one has no files neither has the other. -/
structure Separable (s₁ : String) (files₁ : List String) (s₂ : String) (files₂ : List String) :
    Prop where
  left : s₁.toList <+: s₂.toList → s₁ = s₂
  right : s₂.toList <+: s₁.toList → s₁ = s₂
  comma : ∀ file ∈ files₁ ++ files₂, ',' ∉ file.toList
  empty : files₁ = [] ↔ files₂ = []

-- Of two beginnings of a text one begins the other.
theorem Separable.subject_eq {s₁ s₂ : String} {files₁ files₂ : List String}
    (h : Separable s₁ files₁ s₂ files₂) (htext : s₁ ++ listed files₁ = s₂ ++ listed files₂) :
    s₁ = s₂ := by
  have hchars : s₁.toList ++ (listed files₁).toList = s₂.toList ++ (listed files₂).toList := by
    simpa using congrArg String.toList htext
  have hright : s₂.toList <+: s₁.toList ++ (listed files₁).toList :=
    hchars ▸ List.prefix_append _ _
  rcases List.prefix_or_prefix_of_prefix (List.prefix_append _ _) hright with hleft | hright
  · exact h.left hleft
  · exact h.right hright

/-- Two findings have the same bytes exactly if they are of one category and their subjects, with
their files behind, are the same text.  The order of the files does not matter; and where nothing
can be taken for something else, nothing but their order may differ. -/
theorem bytes_eq_bytes_iff (c₁ c₂ : Category) (s₁ s₂ : String) (files₁ files₂ : List String) :
    (bytes c₁ s₁ files₁ = bytes c₂ s₂ files₂ ↔
      c₁ = c₂ ∧ s₁ ++ listed files₁ = s₂ ++ listed files₂) ∧
    (c₁ = c₂ ∧ s₁ = s₂ ∧ files₂.Perm files₁ → bytes c₁ s₁ files₁ = bytes c₂ s₂ files₂) ∧
    (Separable s₁ files₁ s₂ files₂ →
      (bytes c₁ s₁ files₁ = bytes c₂ s₂ files₂ ↔
        c₁ = c₂ ∧ s₁ = s₂ ∧ files₂.Perm files₁)) := by
  have hforget : c₁ = c₂ ∧ s₁ = s₂ ∧ files₂.Perm files₁ →
      bytes c₁ s₁ files₁ = bytes c₂ s₂ files₂ := by
    rintro ⟨rfl, rfl, hperm⟩
    rw [bytes_inj, listed, listed, sortTexts_congr hperm]
    exact ⟨rfl, rfl⟩
  refine ⟨bytes_inj, hforget, fun hseparable => ⟨fun h => ?_, hforget⟩⟩
  obtain ⟨hcategory, htext⟩ := bytes_inj.mp h
  have hsubject := hseparable.subject_eq htext
  subst hsubject
  have hlisted : listed files₁ = listed files₂ := by
    have hchars := congrArg String.toList htext
    rw [String.toList_append, String.toList_append] at hchars
    exact String.toList_inj.mp (List.append_cancel_left hchars)
  exact ⟨hcategory, rfl, perm_of_listed_eq hseparable.empty hseparable.comma hlisted⟩

theorem separable_clones :
    Separable "duplicated code block (6+ lines)" ["b.ts", "a.ts"]
      "duplicated code block (12+ lines)" ["a.ts", "b.ts"] where
  left := by decide
  right := by decide
  comma := by decide
  empty := by decide

/-- Clones of six lines and clones of twelve lines in the same files. -/
theorem bytes_clones_ne :
    bytes .simplify "duplicated code block (6+ lines)" ["b.ts", "a.ts"] ≠
      bytes .simplify "duplicated code block (12+ lines)" ["a.ts", "b.ts"] := by
  intro h
  have hall := ((bytes_eq_bytes_iff .simplify .simplify _ _ _ _).2.2 separable_clones).mp h
  exact absurd hall.2.1 (by decide)

/-- A subject may go on with the beginning of a file's name: an unused `a` in `bc.ts` and an
unused `ab` in `c.ts` have the same bytes. -/
theorem bytes_not_injective : ¬ ∀ (c₁ c₂ : Category) (s₁ s₂ : String) (files₁ files₂ : List String),
    bytes c₁ s₁ files₁ = bytes c₂ s₂ files₂ ↔ c₁ = c₂ ∧ s₁ = s₂ ∧ files₂.Perm files₁ := by
  intro h
  have hsame : bytes .elim "unused imports: a" ["bc.ts"] =
      bytes .elim "unused imports: ab" ["c.ts"] := by
    rw [bytes_inj]
    simp [listed, sortTexts, joinWith]
  exact absurd ((h _ _ _ _ _ _).mp hsame).2.1 (by decide)

end Scrutiny.Identity
