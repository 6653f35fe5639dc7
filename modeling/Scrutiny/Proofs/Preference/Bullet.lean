import Mathlib.Tactic.Common
import Scrutiny.Preference.Log
import Scrutiny.Proofs.Criticism
import Scrutiny.Proofs.Text.Lines
import Scrutiny.Proofs.Text.Matcher
import Scrutiny.Proofs.Time.Date

/-!
Bullets read back.  A bullet is a lead, which names the day, the category and the subject, and a
tail, which names the place and the reasoning.  The lead is read back from any line that begins
with it; the tail is split in the right place unless the place itself looks like one that a
reasoning follows.
-/

open Scrutiny.Text

namespace Scrutiny.PreferenceEntry

/-! ## 1. The two halves of a bullet -/

/-- A bullet up to its place. -/
def lead (entry : PreferenceEntry) : List Char :=
  "- ".toList ++ (entry.date.chars ++ (": ".toList ++ (entry.category.label.toList ++
    (" `".toList ++ ((sanitize entry.subject).toList ++ "` in ".toList)))))

/-- The place on one line. -/
def place (entry : PreferenceEntry) : List Char :=
  oneLine entry.location.toList

/-- A bullet from its place on. -/
def tail (entry : PreferenceEntry) : List Char :=
  match entry.writtenReasoning with
  | some text => entry.place ++ (reasoningMark ++ (oneLine text.toList ++ ['"']))
  | none => entry.place

theorem toList_bullet (entry : PreferenceEntry) :
    entry.bullet.toList = entry.lead ++ entry.tail := by
  unfold bullet tail
  cases entry.writtenReasoning <;>
    simp [lead, place, mapChars, Date.text, reasoningMark]

theorem toList_sanitize (subject : String) :
    (sanitize subject).toList = subject.toList.map fun c =>
      if c == '`' then '\'' else if c == '\n' || c == '\r' then ' ' else c := by
  rw [sanitize, mapChars, String.toList_ofList]

theorem backtick_not_mem_sanitize (subject : String) : '`' ∉ (sanitize subject).toList := by
  rw [toList_sanitize]
  intro h
  obtain ⟨c, -, hc⟩ := List.mem_map.mp h
  split at hc
  · exact absurd hc (by decide)
  next hne =>
    split at hc
    · exact absurd hc (by decide)
    · exact hne (by rw [hc]; rfl)

theorem unbroken_sanitize (subject : String) : Unbroken (sanitize subject).toList := by
  rw [toList_sanitize]
  intro c hc
  obtain ⟨d, -, rfl⟩ := List.mem_map.mp hc
  split
  · decide
  · split
    · decide
    next hd => simpa using hd

/-! ## 2. Reading the lead -/

theorem reads_label (category : Category) (rest : List Char) :
    (Matcher.anyOf (Category.all.map fun c => Matcher.literal c.label)).Reads
      category.label.toList rest () := by
  intro cursor hcursor
  have hread := Matcher.reads_literal category.label rest cursor hcursor
  have hother (other : Category) (h : beginsBy (· == ·) other.label.toList
      (category.label.toList ++ rest) = false) : Matcher.literal other.label cursor = none := by
    rw [Matcher.literal, Matcher.literalBy, hcursor, h]
    rfl
  cases category with
  | elim => simp [Matcher.anyOf, Category.all, hread]
  | simplify => simp [Matcher.anyOf, Category.all, hread, hother .elim rfl]
  | test => simp [Matcher.anyOf, Category.all, hread, hother .elim rfl, hother .simplify rfl]

theorem reads_bulletParts {entry : PreferenceEntry} (hvalid : entry.date.isValid = true)
    (hyear : 0 ≤ entry.date.year ∧ entry.date.year ≤ 9999) (rest : List Char) :
    bulletParts.Reads (entry.lead ++ rest) []
      (Date.padded 4 entry.date.year.toNat, Date.padded 2 entry.date.month,
        Date.padded 2 entry.date.day, entry.category.label.toList,
        (sanitize entry.subject).toList, rest) := by
  have hlead : entry.lead ++ rest =
      "- ".toList ++ (Date.padded 4 entry.date.year.toNat ++ ("-".toList ++
        (Date.padded 2 entry.date.month ++ ("-".toList ++ (Date.padded 2 entry.date.day ++
          (": ".toList ++ (entry.category.label.toList ++ (" `".toList ++
            ((sanitize entry.subject).toList ++ ("` in ".toList ++ (rest ++ []))))))))))) := by
    simp [lead, Date.chars, Date.yearChars, hyear]
  have hyearDigits : (Date.padded 4 entry.date.year.toNat).length = 4 :=
    Date.length_padded (by decide) (by omega)
  have hsubject : (sanitize entry.subject).toList.all (fun c => c != '`') = true := by
    rw [List.all_eq_true]
    intro c hc
    rw [bne_iff_ne]
    exact fun h => backtick_not_mem_sanitize entry.subject (h ▸ hc)
  rw [hlead]
  refine (Matcher.reads_literal "- " _).bind ?_
  refine (Matcher.reads_exactly _ hyearDigits (Date.all_isAsciiDigit_padded _ _)).bind ?_
  refine (Matcher.reads_literal "-" _).bind ?_
  refine (Matcher.reads_exactly _ (Date.length_padded_month hvalid)
    (Date.all_isAsciiDigit_padded _ _)).bind ?_
  refine (Matcher.reads_literal "-" _).bind ?_
  refine (Matcher.reads_exactly _ (Date.length_padded_day hvalid)
    (Date.all_isAsciiDigit_padded _ _)).bind ?_
  refine (Matcher.reads_literal ": " _).bind ?_
  refine (reads_label entry.category _).matched.bind ?_
  refine (Matcher.reads_literal " `" _).bind ?_
  refine (Matcher.reads_run (Nat.zero_le _) hsubject ?_).bind ?_
  · intro c hc
    rw [← Option.mem_some.mp hc]
    rfl
  refine (Matcher.reads_literal "` in " _).bind ?_
  refine (Matcher.reads_run (Nat.zero_le _) (by simp) (by simp)).bind ?_
  exact Matcher.reads_pure _ []

/-- A line that begins with a bullet's lead is read as that bullet's entry at another place. -/
theorem ofBullet?_lead {entry : PreferenceEntry} (hvalid : entry.date.isValid = true)
    (hyear : 0 ≤ entry.date.year ∧ entry.date.year ≤ 9999) (decision : Decision)
    (rest : List Char) :
    ofBullet? decision (entry.lead ++ rest) =
      (placeAndReason? rest).map fun found =>
        { date := entry.date
          category := entry.category
          subject := sanitize entry.subject
          location := String.ofList found.1
          reasoning := found.2.map String.ofList
          decision := decision } := by
  have hparts := (reads_bulletParts hvalid hyear rest).matchStart?
  rw [ofBullet?, hparts]
  cases hrest : placeAndReason? rest with
  | none => simp [hrest]
  | some found =>
    simp [hrest, Date.ofDigits?_padded hvalid hyear.1, Category.ofLabel?_label]

/-! ## 3. Splitting the tail -/

theorem not_infix_tail {mark text : List Char} {c : Char} (h : ¬ mark <:+: c :: text) :
    ¬ mark <:+: text :=
  fun hi => h (hi.trans (List.suffix_cons c text).isInfix)

theorem splitReasoning_of_not_infix {text : List Char} (h : ¬ reasoningMark <:+: text) :
    splitReasoning text = (text, none) := by
  induction text with
  | nil => rfl
  | cons c rest ih =>
    have hprefix : reasoningMark.isPrefixOf (c :: rest) = false := by
      rw [Bool.eq_false_iff, ne_eq, List.isPrefixOf_iff_prefix]
      exact fun hp => h hp.isInfix
    rw [splitReasoning, dropPrefix?, hprefix, ih (not_infix_tail h)]
    rfl

-- No mark begins within a text that holds none and reaches into the mark behind it, since the
-- mark's first character occurs in it only once more.
theorem not_isPrefixOf_append_mark {text : List Char} (hne : text ≠ [])
    (h : ¬ reasoningMark <:+: text) (rest : List Char) :
    reasoningMark.isPrefixOf (text ++ (reasoningMark ++ rest)) = false := by
  rw [Bool.eq_false_iff, ne_eq, List.isPrefixOf_iff_prefix]
  intro hp
  by_cases hlength : reasoningMark.length ≤ text.length
  · exact h (List.prefix_of_prefix_length_le hp (List.prefix_append _ _) hlength).isInfix
  · -- the mark would have to agree with itself shifted by one, two or three characters
    have hmark : reasoningMark = [' ', '-', ' ', '"'] := rfl
    rw [hmark] at hp hlength
    match text, hne with
    | [a], _ => simp at hp
    | [a, b], _ => simp at hp
    | [a, b, c], _ => simp at hp
    | a :: b :: c :: d :: text, _ => simp at hlength

theorem splitReasoning_append_mark {text : List Char} (h : ¬ reasoningMark <:+: text)
    (reasoning : List Char) :
    splitReasoning (text ++ (reasoningMark ++ (reasoning ++ ['"']))) = (text, some reasoning) := by
  induction text with
  | nil =>
    have hmark : reasoningMark = [' ', '-', ' ', '"'] := rfl
    simp [splitReasoning, dropPrefix?, hmark, Option.filter]
  | cons c rest ih =>
    have hprefix := not_isPrefixOf_append_mark (List.cons_ne_nil c rest) h (reasoning ++ ['"'])
    rw [List.cons_append] at hprefix ⊢
    rw [splitReasoning, dropPrefix?, hprefix, ih (not_infix_tail h)]
    rfl

/-- A place that holds no mark is separated from the reasoning behind it. -/
theorem placeAndReason?_append_mark {place : List Char} (hne : place ≠ [])
    (h : ¬ reasoningMark <:+: place) (reasoning : List Char) :
    placeAndReason? (place ++ (reasoningMark ++ (reasoning ++ ['"']))) =
      some (place, some reasoning) := by
  cases place with
  | nil => exact absurd rfl hne
  | cons c place =>
    have hlast : (c :: (place ++ (reasoningMark ++ (reasoning ++ ['"'])))).getLast? = some '"' := by
      simp [List.getLast?_append, List.getLast?_cons]
    rw [List.cons_append, placeAndReason?, hlast, splitReasoning_append_mark (not_infix_tail h)]
    rfl

/-- A place that holds no mark and stands alone is read whole. -/
theorem placeAndReason?_of_not_infix {place : List Char} (hne : place ≠ [])
    (h : ¬ reasoningMark <:+: place) : placeAndReason? place = some (place, none) := by
  cases place with
  | nil => exact absurd rfl hne
  | cons c place =>
    rw [placeAndReason?, splitReasoning_of_not_infix (not_infix_tail h)]
    split <;> rfl

end Scrutiny.PreferenceEntry
