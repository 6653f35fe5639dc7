import Mathlib.Data.List.Induction
import Scrutiny.Proofs.Text.Lines
import Scrutiny.Detect.Imports

/-!
Whole words.  What the search finds stands in the text.  It skips what it has matched, which loses
nothing: where a word of identifier characters stands alone, no other place of it reaches into that
one.
-/

namespace Scrutiny.Imports

open Text

/-! ## 1. Where a word stands -/

/-- The word occurs with no identifier character on either side. -/
def StandsIn (word text : List Char) : Prop :=
  ∃ before after, text = before ++ word ++ after ∧
    before.getLast?.any isIdentChar = false ∧ after.head?.any isIdentChar = false

-- The same behind a character that is not part of the text.
def StandsBehind (previous : Option Char) (word text : List Char) : Prop :=
  ∃ before after, text = before ++ word ++ after ∧
    (before.getLast?.or previous).any isIdentChar = false ∧ after.head?.any isIdentChar = false

variable {word : List Char}

-- What stands in the rest of a text stands in the text.
theorem StandsBehind.append_left {front text : List Char} (hne : front ≠ [])
    {previous : Option Char} (h : StandsBehind front.getLast? word text) :
    StandsBehind previous word (front ++ text) := by
  obtain ⟨before, after, rfl, hbefore, hafter⟩ := h
  obtain ⟨last, hlast⟩ : ∃ last, front.getLast? = some last :=
    ⟨front.getLast hne, List.getLast?_eq_some_getLast hne⟩
  refine ⟨front ++ before, after, by simp, ?_, hafter⟩
  rw [hlast] at hbefore
  rw [List.getLast?_append, hlast]
  cases hbefore' : before.getLast? <;> simpa [hbefore'] using hbefore

-- Where the text does not begin with the word, the word stands in the rest.
theorem StandsBehind.of_cons {previous : Option Char} {c : Char} {rest : List Char}
    (hbegins : word.isPrefixOf (c :: rest) = false) (h : StandsBehind previous word (c :: rest)) :
    StandsBehind (some c) word rest := by
  obtain ⟨before, after, htext, hbefore, hafter⟩ := h
  cases before with
  | nil =>
    have hword : word <+: c :: rest := ⟨after, htext.symm⟩
    exact absurd (List.isPrefixOf_iff_prefix.mpr hword) (by simp [hbegins])
  | cons d before =>
    obtain ⟨rfl, hrest⟩ := List.cons.inj htext
    refine ⟨before, after, hrest, ?_, hafter⟩
    rw [List.getLast?_cons] at hbefore
    cases hlast : before.getLast? with
    | none => simpa [hlast] using hbefore
    | some last => simpa [hlast] using hbefore

-- A place of the word that begins inside the first one has a character of it on its left.
theorem StandsBehind.of_append (hne : word ≠ []) (hword : word.all isIdentChar = true)
    {previous : Option Char} {after : List Char} (h : StandsBehind previous word (word ++ after)) :
    (previous.any isIdentChar = false ∧ after.head?.any isIdentChar = false) ∨
      StandsBehind word.getLast? word after := by
  obtain ⟨before, rest, htext, hbefore, hrest⟩ := h
  rw [List.append_assoc] at htext
  rcases List.append_eq_append_iff.mp htext with ⟨front, hfront, hafter⟩ | ⟨back, hback, hafter⟩
  · refine .inr ⟨front, rest, by rw [hafter, List.append_assoc], ?_, hrest⟩
    obtain ⟨last, hlast⟩ : ∃ last, word.getLast? = some last :=
      ⟨word.getLast hne, List.getLast?_eq_some_getLast hne⟩
    rw [hfront, List.getLast?_append, hlast] at hbefore
    rw [hlast]
    cases hfront : front.getLast? <;> simpa [hfront] using hbefore
  · cases hlastBefore : before.getLast? with
    | none =>
      obtain rfl := List.getLast?_eq_none_iff.mp hlastBefore
      obtain rfl : word = back := by simpa using hback
      obtain rfl := List.append_cancel_left hafter
      exact .inl ⟨by simpa using hbefore, hrest⟩
    | some last =>
      have hmem : last ∈ word := by
        rw [hback]
        exact List.mem_append_left _ (List.mem_of_getLast? hlastBefore)
      have hident := List.all_eq_true.mp hword last hmem
      simp [hlastBefore, hident] at hbefore

-- Whatever the word is made of, where the search ends it stands.
theorem standsBehind_of_containsWordFrom (hne : word ≠ []) {fuel : Nat} {previous : Option Char}
    {text : List Char} (h : containsWordFrom word fuel previous text = true) :
    StandsBehind previous word text := by
  induction fuel generalizing previous text with
  | zero => simp [containsWordFrom] at h
  | succ fuel ih =>
    cases text with
    | nil => simp [containsWordFrom] at h
    | cons c rest =>
      rw [containsWordFrom] at h
      by_cases hbegins : word.isPrefixOf (c :: rest) = true
      · obtain ⟨after, hafter⟩ := List.isPrefixOf_iff_prefix.mp hbegins
        rw [if_pos hbegins, ← hafter, List.drop_left, Bool.or_eq_true, Bool.and_eq_true,
          Bool.not_eq_true', Bool.not_eq_true'] at h
        rw [← hafter]
        rcases h with ⟨hbefore, hbehind⟩ | h
        · exact ⟨[], after, rfl, by simpa using hbefore, hbehind⟩
        · exact (ih h).append_left hne
      · rw [if_neg hbegins] at h
        exact StandsBehind.append_left (List.cons_ne_nil c []) (ih h)

theorem StandsBehind.containsWordFrom (hne : word ≠ []) (hword : word.all isIdentChar = true)
    {fuel : Nat} {previous : Option Char} {text : List Char} (hfuel : text.length < fuel)
    (h : StandsBehind previous word text) : containsWordFrom word fuel previous text = true := by
  induction fuel generalizing previous text with
  | zero => exact absurd hfuel (Nat.not_lt_zero _)
  | succ fuel ih =>
    cases text with
    | nil =>
      obtain ⟨before, after, htext, -⟩ := h
      simp [hne] at htext
    | cons c rest =>
      rw [Imports.containsWordFrom]
      by_cases hbegins : word.isPrefixOf (c :: rest) = true
      · obtain ⟨after, hafter⟩ := List.isPrefixOf_iff_prefix.mp hbegins
        have hlength : after.length < fuel := by
          have h := congrArg List.length hafter
          have hpos := List.length_pos_iff.mpr hne
          simp only [List.length_append, List.length_cons] at h hfuel
          omega
        rw [← hafter] at h
        rw [if_pos hbegins, ← hafter, List.drop_left, Bool.or_eq_true, Bool.and_eq_true,
          Bool.not_eq_true', Bool.not_eq_true']
        exact (h.of_append hne hword).imp_right (ih hlength)
      · rw [if_neg hbegins]
        exact ih (Nat.lt_of_succ_lt_succ hfuel) (h.of_cons (Bool.eq_false_iff.mpr hbegins))

theorem standsIn_iff_standsBehind {text : List Char} :
    StandsIn word text ↔ StandsBehind none word text := by
  simp only [StandsBehind, StandsIn, Option.or_none]

/-- A word that is found stands in the text, whatever it is made of. -/
theorem standsIn_of_containsWord {text : List Char} (h : containsWord text word = true) :
    StandsIn word text := by
  rw [containsWord, Bool.and_eq_true, Bool.not_eq_true', List.isEmpty_eq_false_iff] at h
  exact standsIn_iff_standsBehind.mpr (standsBehind_of_containsWordFrom h.1 h.2)

/-- The search finds a word exactly where it stands. -/
theorem containsWord_iff {text : List Char} (hne : word ≠ [])
    (hword : word.all isIdentChar = true) :
    containsWord text word = true ↔ StandsIn word text := by
  refine ⟨standsIn_of_containsWord, fun h => ?_⟩
  rw [containsWord, Bool.and_eq_true, Bool.not_eq_true', List.isEmpty_eq_false_iff]
  exact ⟨hne, (standsIn_iff_standsBehind.mp h).containsWordFrom hne hword (Nat.lt_succ_self _)⟩

/-- A word of identifier characters is found if and only if it can be cut out of the text with no
such character next to the cuts.  No such place is hidden by an earlier one that it overlaps. -/
theorem containsWord_eq_true_iff_exists (text : List Char) (hne : word ≠ [])
    (hword : ∀ c ∈ word, isIdentChar c = true) :
    containsWord text word = true ↔
      ∃ before after, text = before ++ word ++ after ∧
        (before = [] ∨ ∃ init last, before = init ++ [last] ∧ isIdentChar last = false) ∧
        (after = [] ∨ ∃ first rest, after = first :: rest ∧ isIdentChar first = false) := by
  have hlast (before : List Char) : before.getLast?.any isIdentChar = false ↔
      (before = [] ∨ ∃ init last, before = init ++ [last] ∧ isIdentChar last = false) := by
    rcases List.eq_nil_or_concat before with rfl | ⟨init, last, rfl⟩ <;> simp
  have hhead (after : List Char) : after.head?.any isIdentChar = false ↔
      (after = [] ∨ ∃ first rest, after = first :: rest ∧ isIdentChar first = false) := by
    cases after <;> simp
  simp only [containsWord_iff hne (List.all_eq_true.mpr hword), StandsIn, hlast, hhead]

/-- The first row of signs has two overlapping places where the word does not stand alone. -/
theorem containsWord_behind_overlap : containsWord "$$$.$$".toList "$$".toList = true :=
  (containsWord_eq_true_iff_exists _ (by decide) (List.all_eq_true.mp (by decide))).mpr
    ⟨"$$$.".toList, [], by decide, .inr ⟨"$$$".toList, '.', by decide, by decide⟩, .inl rfl⟩

-- A word with another character in it may be missed: here its first place hides the second.
example : containsWord "xa-a-a".toList "a-a".toList = false := by decide

/-! ## 2. The words of a text -/

/-- The longest runs of identifier characters. -/
def words (text : List Char) : List (List Char) :=
  (text.splitOnP fun c => !isIdentChar c).filter (· ≠ [])

theorem words_append_cons {c : Char} (hc : isIdentChar c = false) (front back : List Char) :
    words (front ++ c :: back) = words front ++ words back := by
  rw [words, List.splitOnP_append_cons front back (by simp [hc]), List.filter_append]
  rfl

@[simp]
theorem words_nil : words [] = [] := by simp [words, List.splitOnP_nil]

theorem words_of_all {text : List Char} (hne : text ≠ []) (h : text.all isIdentChar = true) :
    words text = [text] := by
  have hsingle : (text.splitOnP fun c => !isIdentChar c) = [text] :=
    List.splitOnP_eq_singleton fun c hc => by simp [List.all_eq_true.mp h c hc]
  rw [words, hsingle]
  simp [hne]

-- A gap of other characters separates the words on its sides.
theorem words_append_gap {gap : List Char} (hne : gap ≠ [])
    (hgap : ∀ c ∈ gap, isIdentChar c = false) (front back : List Char) :
    words (front ++ (gap ++ back)) = words front ++ words back := by
  induction gap generalizing front with
  | nil => exact absurd rfl hne
  | cons c gap ih =>
    have hc := hgap c List.mem_cons_self
    rw [List.cons_append, words_append_cons hc]
    cases gap with
    | nil => rfl
    | cons d gap =>
      have hrest := ih (List.cons_ne_nil _ _) (fun e he => hgap e (List.mem_cons_of_mem _ he)) []
      rw [List.nil_append, words_nil, List.nil_append] at hrest
      rw [hrest]

theorem words_gap_append {gap : List Char} (hgap : ∀ c ∈ gap, isIdentChar c = false)
    (back : List Char) : words (gap ++ back) = words back := by
  by_cases hne : gap = []
  · rw [hne, List.nil_append]
  · have h := words_append_gap hne hgap [] back
    rwa [List.nil_append, words_nil, List.nil_append] at h

theorem mem_words_of_standsIn (hne : word ≠ []) (hword : word.all isIdentChar = true)
    {text : List Char} (h : StandsIn word text) : word ∈ words text := by
  obtain ⟨before, after, rfl, hbefore, hafter⟩ := h
  have hback : word ∈ words (word ++ after) := by
    cases after with
    | nil => simp [words_of_all hne hword]
    | cons c after => simp [words_append_cons (by simpa using hafter), words_of_all hne hword]
  rw [List.append_assoc]
  rcases List.eq_nil_or_concat before with rfl | ⟨front, c, rfl⟩
  · exact hback
  · have hc : isIdentChar c = false := by simpa using hbefore
    rw [List.concat_eq_append, List.append_assoc, List.singleton_append, words_append_cons hc]
    exact List.mem_append_right _ hback

theorem words_append_of_gap {gap : List Char} (hgap : ∀ c ∈ gap, isIdentChar c = false)
    (front : List Char) : words (front ++ gap) = words front := by
  by_cases hne : gap = []
  · rw [hne, List.append_nil]
  · have h := words_append_gap hne hgap front []
    rwa [List.append_nil, words_nil, List.append_nil] at h

theorem words_intercalate {separator : Char} (hseparator : isIdentChar separator = false)
    (parts : List (List Char)) :
    words ([separator].intercalate parts) = parts.flatMap words := by
  induction parts with
  | nil => simp
  | cons part parts ih =>
    cases parts with
    | nil => simp
    | cons next parts =>
      rw [List.intercalate_cons_cons, List.append_assoc, List.singleton_append,
        words_append_cons hseparator, ih]
      rfl

theorem words_eq_flatMap_pieces (text : List Char) :
    words text = (pieces text).flatMap words := by
  have hnewline : isIdentChar '\n' = false := by decide
  have h := words_intercalate hnewline (pieces text)
  rwa [intercalate_pieces] at h

end Scrutiny.Imports
