import Scrutiny.Proofs.Text.Lines

/-!
Carriage returns at the ends of lines.  Lines that are joined again make the text that they come
from, but for carriage returns before newlines; so what stands on some lines of a text stands in
the text with such returns in it.
-/

namespace Scrutiny.Text

/-- The second text is the first one without the carriage returns before some of its newlines. -/
inductive Unreturned : List Char → List Char → Prop
  | nil : Unreturned [] []
  | same (c : Char) {raw text : List Char} (h : Unreturned raw text) :
      Unreturned (c :: raw) (c :: text)
  | dropped {raw text : List Char} (h : Unreturned raw text) :
      Unreturned ('\r' :: '\n' :: raw) ('\n' :: text)

namespace Unreturned

variable {raw text front back : List Char}

/-- Where the text is cut, the raw one can be cut too. -/
theorem exists_append (h : Unreturned raw (front ++ back)) :
    ∃ rawFront rawBack, raw = rawFront ++ rawBack ∧ Unreturned rawFront front ∧
      Unreturned rawBack back := by
  induction front generalizing raw with
  | nil => exact ⟨[], raw, rfl, .nil, h⟩
  | cons c front ih =>
    cases h with
    | same _ h =>
      obtain ⟨rawFront, rawBack, rfl, hfront, hback⟩ := ih h
      exact ⟨c :: rawFront, rawBack, rfl, .same c hfront, hback⟩
    | dropped h =>
      obtain ⟨rawFront, rawBack, rfl, hfront, hback⟩ := ih h
      exact ⟨'\r' :: '\n' :: rawFront, rawBack, rfl, .dropped hfront, hback⟩

theorem eq_of_newline_not_mem (h : Unreturned raw text) (htext : '\n' ∉ text) : raw = text := by
  induction h with
  | nil => rfl
  | same c _ ih => rw [ih fun hmem => htext (List.mem_cons_of_mem c hmem)]
  | dropped => exact absurd List.mem_cons_self htext

theorem eq_of_return_not_mem (h : Unreturned raw text) (hraw : '\r' ∉ raw) : raw = text := by
  induction h with
  | nil => rfl
  | same c _ ih => rw [ih fun hmem => hraw (List.mem_cons_of_mem c hmem)]
  | dropped => exact absurd List.mem_cons_self hraw

/-- What holds of carriage returns and of the text holds of the raw one. -/
theorem forall_mem (h : Unreturned raw text) {p : Char → Prop} (hreturn : p '\r')
    (htext : ∀ c ∈ text, p c) : ∀ c ∈ raw, p c := by
  induction h with
  | nil => exact htext
  | same c _ ih =>
    rw [List.forall_mem_cons] at htext ⊢
    exact ⟨htext.1, ih htext.2⟩
  | dropped _ ih =>
    rw [List.forall_mem_cons] at htext ⊢
    exact ⟨hreturn, List.forall_mem_cons.mpr ⟨htext.1, ih htext.2⟩⟩

theorem isBlankText (h : Unreturned raw text) (htext : isBlankText text = true) :
    Text.isBlankText raw = true := by
  rw [Text.isBlankText, List.all_eq_true] at htext ⊢
  exact h.forall_mem rfl htext

theorem ne_nil (h : Unreturned raw text) (htext : text ≠ []) : raw ≠ [] := by
  cases h with
  | nil => exact htext
  | same => exact List.cons_ne_nil _ _
  | dropped => exact List.cons_ne_nil _ _

theorem getLast?_eq_newline (h : Unreturned raw text) (htext : text.getLast? = some '\n') :
    raw.getLast? = some '\n' := by
  obtain ⟨init, rfl⟩ := List.getLast?_eq_some_iff.mp htext
  obtain ⟨rawFront, rawBack, rfl, -, hback⟩ := h.exists_append
  rw [List.getLast?_append]
  cases hback with
  | same _ h => cases h; rfl
  | dropped h => cases h; rfl

end Unreturned

/-- The lines of a text with a newline behind each are the text, which may lack the last one. -/
theorem exists_unreturned_lines (text : List Char) : ∃ ending, (ending = [] ∨ ending = ['\n']) ∧
    Unreturned (text ++ ending) ((lines text).flatMap fun row => row ++ ['\n']) := by
  fun_induction lines text with
  | case1 => exact ⟨[], .inl rfl, .nil⟩
  | case2 rest ih =>
    obtain ⟨ending, hending, h⟩ := ih
    exact ⟨ending, hending, .same '\n' h⟩
  | case3 rest ih =>
    obtain ⟨ending, hending, h⟩ := ih
    exact ⟨ending, hending, .dropped h⟩
  | case4 c rest _ _ ih =>
    obtain ⟨ending, hending, h⟩ := ih
    cases hlines : lines rest with
    | nil =>
      rw [lines_eq_nil hlines]
      exact ⟨['\n'], .inr rfl, .same c (.same '\n' .nil)⟩
    | cons row rows =>
      rw [hlines] at h
      exact ⟨ending, hending, .same c h⟩

/-- What stands on some lines of a text begins a line of it. -/
theorem exists_unreturned_rows {text : List Char} {before rows after : List (List Char)}
    (hlines : lines text = before ++ rows ++ after) (hne : rows ≠ []) :
    ∃ front raw back, text = front ++ (raw ++ back) ∧
      Unreturned raw (['\n'].intercalate rows) ∧ (front = [] ∨ front.getLast? = some '\n') := by
  obtain ⟨ending, hending, h⟩ := exists_unreturned_lines text
  rw [hlines, List.flatMap_append, List.flatMap_append, ← intercalate_append_newline hne,
    List.append_assoc, List.append_assoc] at h
  obtain ⟨front, rest, hsplit, hfront, hrest⟩ := h.exists_append
  obtain ⟨raw, last, rfl, hraw, hlast⟩ := hrest.exists_append
  have hlastNe : last ≠ [] := hlast.ne_nil (by simp)
  have htext : ∃ back, text = front ++ (raw ++ back) := by
    rcases hending with rfl | rfl
    · exact ⟨last, by simpa using hsplit⟩
    · refine ⟨last.dropLast, ?_⟩
      have hinit := congrArg List.dropLast hsplit
      rwa [List.dropLast_concat, ← List.append_assoc, List.dropLast_append_of_ne_nil hlastNe,
        List.append_assoc] at hinit
  obtain ⟨back, htext⟩ := htext
  refine ⟨front, raw, back, htext, hraw, ?_⟩
  by_cases hbefore : before = []
  · subst hbefore
    cases hfront
    exact .inl rfl
  · exact .inr (hfront.getLast?_eq_newline (getLast?_flatMap_newline hbefore))

end Scrutiny.Text
