import Mathlib.Data.List.Pairwise
import Mathlib.Tactic.Common
import Scrutiny.Text.Matcher

/-!
What matchers read.  A matcher reads a part of a text if, wherever that part stands before a
given rest, it succeeds with a given value and stops behind the part.  It takes at least so many
characters if it never succeeds on fewer, and it needs so many of a class if it fails wherever
fewer are left.
-/

namespace Scrutiny.Text

theorem Cursor.behind_nil (cursor : Cursor) : cursor.behind [] = cursor := by
  simp [Cursor.behind]

theorem Cursor.behind_append (cursor : Cursor) (front back : List Char) :
    cursor.behind (front ++ back) = (cursor.behind front).behind back := by
  simp [Cursor.behind, Nat.add_assoc, List.getLast?_append, Option.or_assoc]

theorem Cursor.behind_cons (offset : Nat) (previous : Option Char) (c : Char)
    (rest front : List Char) :
    (Cursor.mk offset previous (c :: rest)).behind (c :: front) =
      (Cursor.mk (offset + 1) (some c) rest).behind front := by
  have hlast : (c :: front).getLast?.or previous = front.getLast?.or (some c) := by
    rw [List.getLast?_cons]
    cases front.getLast? <;> rfl
  simp only [Cursor.behind, hlast, List.length_cons, List.drop_succ_cons, Nat.add_assoc,
    Nat.add_comm 1]

theorem Cursor.rest_behind {cursor : Cursor} {part rest : List Char}
    (h : cursor.rest = part ++ rest) : (cursor.behind part).rest = rest := by
  simp [Cursor.behind, h]

theorem beginsBy_beq_append (start rest : List Char) :
    beginsBy (· == ·) start (start ++ rest) = true := by
  induction start with
  | nil => rfl
  | cons c start ih => simpa [beginsBy] using ih

theorem beginsBy_foldCase {start text : List Char} :
    beginsBy (fun a b => foldCase a == foldCase b) start text = true ↔
      start.map foldCase <+: text.map foldCase := by
  induction start generalizing text with
  | nil => exact iff_of_true rfl List.nil_prefix
  | cons c start ih =>
    cases text with
    | nil => simp [beginsBy]
    | cons d text =>
      rw [beginsBy, Bool.and_eq_true, beq_iff_eq, ih, List.map_cons, List.map_cons,
        List.cons_prefix_cons]

/-- The text is a word in some letter case. -/
def Spells (text : List Char) (word : String) : Prop :=
  text.map foldCase = word.toList.map foldCase

instance (text : List Char) (word : String) : Decidable (Spells text word) :=
  inferInstanceAs (Decidable (text.map foldCase = word.toList.map foldCase))

namespace Matcher

variable {α β : Type}

/-- The matcher reads `part` where `rest` follows, and gives `a`. -/
def Reads (matcher : Matcher α) (part rest : List Char) (a : α) : Prop :=
  ∀ cursor : Cursor, cursor.rest = part ++ rest → matcher cursor = some (a, cursor.behind part)

theorem reads_pure (a : α) (rest : List Char) : (pure a : Matcher α).Reads [] rest a := by
  intro cursor _
  rw [Cursor.behind_nil]
  rfl

theorem Reads.bind {matcher : Matcher α} {next : α → Matcher β} {front back rest : List Char}
    {a : α} {b : β} (hfirst : matcher.Reads front (back ++ rest) a)
    (hnext : (next a).Reads back rest b) : (matcher >>= next).Reads (front ++ back) rest b := by
  intro cursor hcursor
  rw [List.append_assoc] at hcursor
  change (matcher cursor).bind (fun read => next read.1 read.2) = _
  rw [hfirst cursor hcursor, Cursor.behind_append]
  exact hnext _ (Cursor.rest_behind hcursor)

theorem Reads.bind_pure {matcher : Matcher α} {part rest : List Char} {a : α}
    (h : matcher.Reads part rest a) (f : α → β) :
    (matcher >>= fun a => pure (f a)).Reads part rest (f a) := by
  intro cursor hcursor
  change (matcher cursor).bind (fun read => some (f read.1, read.2)) = _
  rw [h cursor hcursor]
  rfl

theorem reads_literal (text : String) (rest : List Char) :
    (literal text).Reads text.toList rest () := by
  intro cursor hcursor
  rw [literal, literalBy, hcursor, beginsBy_beq_append]
  simp

theorem reads_word {part : List Char} {text : String} (h : Spells part text) (rest : List Char) :
    (word text).Reads part rest () := by
  intro cursor hcursor
  have hlength : text.toList.length = part.length := by
    rw [← List.length_map foldCase, ← h, List.length_map]
  have hbegins :
      beginsBy (fun a b => foldCase a == foldCase b) text.toList (part ++ rest) = true := by
    rw [beginsBy_foldCase, ← h, List.map_append]
    exact List.prefix_append _ _
  rw [word, literalBy, hcursor, if_pos hbegins, hlength, List.take_left]

theorem reads_exactly {part : List Char} {count : Nat} {accepts : Char → Bool} (rest : List Char)
    (hlength : part.length = count) (hpart : part.all accepts = true) :
    (exactly count accepts).Reads part rest part := by
  intro cursor hcursor
  subst hlength
  simp [exactly, hcursor, hpart]

-- A run is read to its end, where a character stands that it does not take.
theorem reads_run {part rest : List Char} {accepts : Char → Bool} {least : Nat}
    (hleast : least ≤ part.length) (hpart : part.all accepts = true)
    (hrest : ∀ c ∈ rest.head?, accepts c = false) : (run least accepts).Reads part rest part := by
  intro cursor hcursor
  have htake : (part ++ rest).takeWhile accepts = part := by
    rw [List.takeWhile_append_of_pos (List.all_eq_true.mp hpart)]
    cases rest with
    | nil => simp
    | cons c rest => simp [hrest c rfl]
  rw [run, hcursor, htake]
  exact if_pos hleast

theorem reads_char {accepts : Char → Bool} {c : Char} (hc : accepts c = true) (rest : List Char) :
    (char accepts).Reads [c] rest c := by
  intro cursor hcursor
  rw [char, hcursor]
  exact if_pos hc

theorem Reads.either_left {left : Matcher α} {part rest : List Char} {a : α}
    (h : left.Reads part rest a) (right : Matcher α) : (left.either right).Reads part rest a := by
  intro cursor hcursor
  rw [either, h cursor hcursor]
  rfl

theorem Reads.matched {matcher : Matcher α} {part rest : List Char} {a : α}
    (h : matcher.Reads part rest a) : matcher.matched.Reads part rest part := by
  intro cursor hcursor
  rw [Matcher.matched, h cursor hcursor]
  simp [Cursor.since, Cursor.behind, hcursor]

theorem Reads.matchStart? {matcher : Matcher α} {text : List Char} {a : α}
    (h : matcher.Reads text [] a) : matcher.matchStart? text = some a := by
  rw [Matcher.matchStart?, h (Cursor.ofText text) (by simp [Cursor.ofText])]
  rfl

theorem Reads.matchStart?_append {matcher : Matcher α} {part rest : List Char} {a : α}
    (h : matcher.Reads part rest a) : matcher.matchStart? (part ++ rest) = some a := by
  rw [Matcher.matchStart?, h (Cursor.ofText (part ++ rest)) rfl]
  rfl

theorem assert_bind {condition : Cursor → Bool} {cursor : Cursor} (h : condition cursor = true)
    (next : Unit → Matcher β) : (assert condition >>= next) cursor = next () cursor := by
  change (assert condition cursor).bind (fun read => next read.1 read.2) = _
  rw [assert, if_pos h]
  rfl

theorem reads_assert {condition : Cursor → Bool} (h : ∀ cursor, condition cursor = true)
    (rest : List Char) : (assert condition).Reads [] rest () := by
  intro cursor _
  rw [assert, if_pos (h cursor), Cursor.behind_nil]

theorem anyOf_cons_of_some {choice : Matcher α} {cursor : Cursor} {read : α × Cursor}
    (h : choice cursor = some read) (choices : List (Matcher α)) :
    anyOf (choice :: choices) cursor = some read := by
  rw [anyOf, List.findSome?_cons, h]

theorem anyOf_cons_of_none {choice : Matcher α} {cursor : Cursor} (h : choice cursor = none)
    (choices : List (Matcher α)) : anyOf (choice :: choices) cursor = anyOf choices cursor := by
  rw [anyOf, List.findSome?_cons, h]
  rfl

/-- What is optional is read where it stands. -/
theorem Reads.optional {matcher : Matcher α} {part rest : List Char} {a : α}
    (h : matcher.Reads part rest a) : matcher.optional.Reads part rest (some a) := by
  intro cursor hcursor
  rw [Matcher.optional, h cursor hcursor]

/-! ## Failing -/

/-- The matcher fails wherever just this text is left. -/
def Fails (matcher : Matcher α) (text : List Char) : Prop :=
  ∀ cursor : Cursor, cursor.rest = text → matcher cursor = none

theorem Fails.bind {matcher : Matcher α} {text : List Char} (h : matcher.Fails text)
    (next : α → Matcher β) : (matcher >>= next).Fails text := by
  intro cursor hcursor
  change (matcher cursor).bind (fun read => next read.1 read.2) = none
  rw [h cursor hcursor]
  rfl

theorem Reads.bind_fails {matcher : Matcher α} {next : α → Matcher β} {front rest : List Char}
    {a : α} (hfirst : matcher.Reads front rest a) (hnext : (next a).Fails rest) :
    (matcher >>= next).Fails (front ++ rest) := by
  intro cursor hcursor
  change (matcher cursor).bind (fun read => next read.1 read.2) = none
  rw [hfirst cursor hcursor]
  exact hnext _ (Cursor.rest_behind hcursor)

theorem Fails.either {left right : Matcher α} {text : List Char} (hleft : left.Fails text)
    (hright : right.Fails text) : (left.either right).Fails text := by
  intro cursor hcursor
  rw [Matcher.either, hleft cursor hcursor, hright cursor hcursor]
  rfl

theorem Reads.either_right {left right : Matcher α} {part rest : List Char} {a : α}
    (h : right.Reads part rest a) (hleft : left.Fails (part ++ rest)) :
    (left.either right).Reads part rest a := by
  intro cursor hcursor
  rw [either, hleft cursor hcursor, h cursor hcursor]
  rfl

theorem Fails.optional {matcher : Matcher α} {rest : List Char} (h : matcher.Fails rest) :
    matcher.optional.Reads [] rest none := by
  intro cursor hcursor
  rw [Matcher.optional, h cursor hcursor, Cursor.behind_nil]

theorem fails_char {accepts : Char → Bool} {text : List Char}
    (h : ∀ c ∈ text.head?, accepts c = false) : (char accepts).Fails text := by
  intro cursor hcursor
  rw [char, hcursor]
  cases text with
  | nil => rfl
  | cons c text => exact if_neg (by simp [h c rfl])

theorem fails_assert {condition : Cursor → Bool} (h : ∀ cursor, condition cursor = false)
    (text : List Char) : (assert condition).Fails text := by
  intro cursor _
  rw [assert, if_neg (by simp [h cursor])]

-- Nothing is read, so what comes next is tried at the same place.
theorem fails_assert_bind (condition : Cursor → Bool) {next : Unit → Matcher β}
    {text : List Char} (h : (next ()).Fails text) : (assert condition >>= next).Fails text := by
  intro cursor hcursor
  change (assert condition cursor).bind (fun read => next read.1 read.2) = none
  rw [assert]
  split
  · exact h cursor hcursor
  · rfl

theorem fails_run {least : Nat} {accepts : Char → Bool} {text : List Char} (hleast : 0 < least)
    (htext : ∀ c ∈ text.head?, accepts c = false) : (run least accepts).Fails text := by
  intro cursor hcursor
  have htake : text.takeWhile accepts = [] := by
    cases text with
    | nil => rfl
    | cons c text => simp [htext c rfl]
  rw [run, hcursor, htake]
  exact if_neg (Nat.not_le.mpr hleast)

theorem prefix_of_beginsBy {start text : List Char} (h : beginsBy (· == ·) start text = true) :
    start <+: text := by
  induction start generalizing text with
  | nil => exact List.nil_prefix
  | cons c start ih =>
    cases text with
    | nil => exact absurd h (by simp [beginsBy])
    | cons d text =>
      rw [beginsBy, Bool.and_eq_true, beq_iff_eq] at h
      exact List.cons_prefix_cons.mpr ⟨h.1, ih h.2⟩

theorem fails_literal {text : String} {rest : List Char} (h : ¬ text.toList <+: rest) :
    (literal text).Fails rest := by
  intro cursor hcursor
  rw [literal, literalBy, hcursor]
  exact if_neg fun hbegins => h (prefix_of_beginsBy hbegins)

theorem fails_word {text : String} {rest : List Char}
    (h : ¬ text.toList.map foldCase <+: rest.map foldCase) : (word text).Fails rest := by
  intro cursor hcursor
  rw [word, literalBy, hcursor]
  exact if_neg fun hbegins => h (beginsBy_foldCase.mp hbegins)

theorem fails_word_of_head {text : String} {rest : List Char} {letter : Char}
    (htext : (text.toList.map foldCase).head? = some letter)
    (h : ∀ c ∈ rest.head?, foldCase c ≠ letter) : (word text).Fails rest := by
  refine fails_word fun hprefix => ?_
  obtain ⟨more, hmore⟩ := List.head?_eq_some_iff.mp htext
  rw [hmore] at hprefix
  cases rest with
  | nil => exact absurd (List.prefix_nil.mp hprefix) (List.cons_ne_nil _ _)
  | cons c rest => exact h c rfl (List.cons_prefix_cons.mp hprefix).1.symm

/-! ## What is taken -/

/-- Wherever the matcher succeeds, `spec` holds of the part that it reads and of its value. -/
def Consumes (matcher : Matcher α) (spec : List Char → α → Prop) : Prop :=
  ∀ (cursor : Cursor) (a : α) (stop : Cursor), matcher cursor = some (a, stop) →
    ∃ part, spec part a ∧ part <+: cursor.rest ∧ stop = cursor.behind part

variable {spec : List Char → α → Prop}

theorem Consumes.imp {matcher : Matcher α} {more : List Char → α → Prop}
    (h : matcher.Consumes spec) (hmore : ∀ part a, spec part a → more part a) :
    matcher.Consumes more := by
  intro cursor a stop hread
  obtain ⟨part, hpart, hrest⟩ := h _ _ _ hread
  exact ⟨part, hmore part a hpart, hrest⟩

theorem consumes_pure {a : α} (h : spec [] a) : (pure a : Matcher α).Consumes spec := by
  intro cursor b stop hread
  cases Option.some.inj hread
  exact ⟨[], h, List.nil_prefix, (Cursor.behind_nil cursor).symm⟩

theorem Consumes.bind {matcher : Matcher α} {next : α → Matcher β}
    {after : α → List Char → β → Prop} {whole : List Char → β → Prop}
    (hfirst : matcher.Consumes spec) (hnext : ∀ a, (next a).Consumes (after a))
    (hwhole : ∀ front a back b, spec front a → after a back b → whole (front ++ back) b) :
    (matcher >>= next).Consumes whole := by
  intro cursor b stop hread
  obtain ⟨⟨a, middle⟩, hmatcher, hafter⟩ := Option.bind_eq_some_iff.mp hread
  obtain ⟨front, hfront, ⟨rest, hrest⟩, rfl⟩ := hfirst _ _ _ hmatcher
  obtain ⟨back, hback, hprefix, rfl⟩ := hnext a _ _ _ hafter
  rw [Cursor.rest_behind hrest.symm] at hprefix
  refine ⟨front ++ back, hwhole _ _ _ _ hfront hback, ?_,
    (Cursor.behind_append cursor front back).symm⟩
  rw [← hrest]
  exact (List.prefix_append_right_inj front).mpr hprefix

theorem Consumes.bind_pure {matcher : Matcher α} {whole : List Char → β → Prop}
    (h : matcher.Consumes spec) (f : α → β) (hwhole : ∀ part a, spec part a → whole part (f a)) :
    (matcher >>= fun a => pure (f a)).Consumes whole := by
  have hend (a : α) : (pure (f a) : Matcher β).Consumes fun part b => part = [] ∧ b = f a :=
    consumes_pure ⟨rfl, rfl⟩
  refine h.bind hend ?_
  rintro part a _ _ hpart ⟨rfl, rfl⟩
  rw [List.append_nil]
  exact hwhole part a hpart

theorem Consumes.optional {matcher : Matcher α} (h : matcher.Consumes spec) :
    matcher.optional.Consumes fun part _ => part = [] ∨ ∃ a, spec part a := by
  intro cursor a stop hread
  unfold Matcher.optional at hread
  cases hmatcher : matcher cursor with
  | none =>
    rw [hmatcher] at hread
    cases Option.some.inj hread
    exact ⟨[], .inl rfl, List.nil_prefix, (Cursor.behind_nil cursor).symm⟩
  | some read =>
    rw [hmatcher] at hread
    cases Option.some.inj hread
    obtain ⟨part, hpart, hrest⟩ := h _ _ _ hmatcher
    exact ⟨part, .inr ⟨_, hpart⟩, hrest⟩

theorem Consumes.either {left right : Matcher α} (hleft : left.Consumes spec)
    (hright : right.Consumes spec) : (left.either right).Consumes spec := by
  intro cursor a stop hread
  rcases Option.or_eq_some_iff.mp hread with h | ⟨-, h⟩
  · exact hleft _ _ _ h
  · exact hright _ _ _ h

theorem consumes_anyOf {choices : List (Matcher α)}
    (h : ∀ choice ∈ choices, choice.Consumes spec) : (anyOf choices).Consumes spec := by
  intro cursor a stop hread
  obtain ⟨choice, hchoice, hmatcher⟩ := List.exists_of_findSome?_eq_some hread
  exact h choice hchoice _ _ _ hmatcher

theorem consumes_assert (condition : Cursor → Bool) :
    (assert condition).Consumes fun part _ => part = [] ∧ ∃ cursor, condition cursor = true := by
  intro cursor a stop hread
  unfold assert at hread
  split at hread
  next h =>
    cases Option.some.inj hread
    exact ⟨[], ⟨rfl, cursor, h⟩, List.nil_prefix, (Cursor.behind_nil cursor).symm⟩
  next => exact absurd hread (by simp)

theorem consumes_char (accepts : Char → Bool) :
    (char accepts).Consumes fun part c => part = [c] ∧ accepts c = true := by
  intro cursor a stop hread
  unfold char at hread
  split at hread
  next c rest hrest =>
    split at hread
    next hc =>
      cases Option.some.inj hread
      exact ⟨[a], ⟨rfl, hc⟩, hrest ▸ List.prefix_append [a] rest, rfl⟩
    next => exact absurd hread (by simp)
  next => exact absurd hread (by simp)

theorem consumes_run (least : Nat) (accepts : Char → Bool) :
    (run least accepts).Consumes fun part text =>
      part = text ∧ least ≤ text.length ∧ text.all accepts = true := by
  intro cursor a stop hread
  rw [run] at hread
  split at hread
  next hleast =>
    cases Option.some.inj hread
    exact ⟨_, ⟨rfl, hleast, List.all_takeWhile⟩, List.takeWhile_prefix accepts, rfl⟩
  next => exact absurd hread (by simp)

theorem consumes_literal (text : String) :
    (literal text).Consumes fun part _ => part = text.toList := by
  intro cursor a stop hread
  rw [literal, literalBy] at hread
  split at hread
  next hbegins =>
    cases Option.some.inj hread
    have hprefix := prefix_of_beginsBy hbegins
    rw [← List.prefix_iff_eq_take.mp hprefix]
    exact ⟨_, rfl, hprefix, rfl⟩
  next => exact absurd hread (by simp)

theorem consumes_word (text : String) : (word text).Consumes fun part _ => Spells part text := by
  intro cursor a stop hread
  rw [word, literalBy] at hread
  split at hread
  next hbegins =>
    cases Option.some.inj hread
    refine ⟨_, ?_, List.take_prefix _ _, rfl⟩
    have hprefix := List.prefix_iff_eq_take.mp (beginsBy_foldCase.mp hbegins)
    change (cursor.rest.take text.toList.length).map foldCase = text.toList.map foldCase
    rw [List.map_take, hprefix, List.length_map]
  next => exact absurd hread (by simp)

theorem Consumes.matched {matcher : Matcher α} (h : matcher.Consumes spec) :
    matcher.matched.Consumes fun part text => part = text ∧ ∃ a, spec part a := by
  intro cursor text stop hread
  obtain ⟨⟨a, after⟩, hmatcher, heq⟩ := Option.map_eq_some_iff.mp hread
  obtain ⟨rfl, rfl⟩ := Prod.mk.inj heq
  obtain ⟨part, hpart, hprefix, rfl⟩ := h _ _ _ hmatcher
  refine ⟨part, ⟨?_, a, hpart⟩, hprefix, rfl⟩
  rw [Cursor.since, Cursor.behind, Nat.add_sub_cancel_left]
  exact List.prefix_iff_eq_take.mp hprefix

/-- The text of a match is the part that was read. -/
theorem Consumes.text {matcher : Matcher α} (h : matcher.Consumes spec) {hit : Hit α}
    (hread : matcher hit.start = some (hit.value, hit.stop)) : spec hit.text hit.value := by
  obtain ⟨part, hpart, hprefix, hstop⟩ := h _ _ _ hread
  have htext : hit.text = part := by
    rw [Hit.text, hstop, Cursor.since, Cursor.behind, Nat.add_sub_cancel_left]
    exact (List.prefix_iff_eq_take.mp hprefix).symm
  rwa [htext]

/-! ## How much is taken -/

/-- Wherever the matcher succeeds, it stops behind a part of at least `least` characters. -/
def Takes (least : Nat) (matcher : Matcher α) : Prop :=
  ∀ (cursor : Cursor) (a : α) (stop : Cursor), matcher cursor = some (a, stop) →
    ∃ part, least ≤ part.length ∧ part <+: cursor.rest ∧ stop = cursor.behind part

theorem Takes.mono {matcher : Matcher α} {least less : Nat} (h : matcher.Takes least)
    (hless : less ≤ least) : matcher.Takes less :=
  Consumes.imp h fun _ _ => Nat.le_trans hless

theorem takes_pure (a : α) : (pure a : Matcher α).Takes 0 :=
  consumes_pure (Nat.zero_le _)

theorem Takes.bind {matcher : Matcher α} {next : α → Matcher β} {m n : Nat}
    (hfirst : matcher.Takes m) (hnext : ∀ a, (next a).Takes n) :
    (matcher >>= next).Takes (m + n) := by
  refine Consumes.bind hfirst hnext fun front a back b hfront hback => ?_
  rw [List.length_append]
  exact Nat.add_le_add hfront hback

theorem Takes.optional {matcher : Matcher α} {least : Nat} (h : matcher.Takes least) :
    matcher.optional.Takes 0 :=
  Consumes.imp (Consumes.optional h) fun _ _ _ => Nat.zero_le _

theorem Takes.either {left right : Matcher α} {least : Nat} (hleft : left.Takes least)
    (hright : right.Takes least) : (left.either right).Takes least :=
  Consumes.either hleft hright

theorem takes_anyOf {choices : List (Matcher α)} {least : Nat}
    (h : ∀ choice ∈ choices, choice.Takes least) : (anyOf choices).Takes least :=
  consumes_anyOf h

theorem takes_assert (condition : Cursor → Bool) : (assert condition).Takes 0 :=
  (consumes_assert condition).imp fun _ _ _ => Nat.zero_le _

theorem takes_char (accepts : Char → Bool) : (char accepts).Takes 1 :=
  (consumes_char accepts).imp fun _ _ h => by rw [h.1]; exact Nat.le_refl 1

theorem takes_run (least : Nat) (accepts : Char → Bool) : (run least accepts).Takes least :=
  (consumes_run least accepts).imp fun _ _ h => by rw [h.1]; exact h.2.1

theorem takes_exactly (count : Nat) (accepts : Char → Bool) :
    (exactly count accepts).Takes count := by
  intro cursor a stop hread
  rw [exactly] at hread
  split at hread
  next h =>
    rw [Bool.and_eq_true, decide_eq_true_eq] at h
    cases Option.some.inj hread
    exact ⟨_, Nat.le_of_eq h.1.symm, List.take_prefix count _, rfl⟩
  next => exact absurd hread (by simp)

theorem length_of_beginsBy {same : Char → Char → Bool} {start text : List Char}
    (h : beginsBy same start text = true) : start.length ≤ text.length := by
  induction start generalizing text with
  | nil => exact Nat.zero_le _
  | cons c start ih =>
    cases text with
    | nil => exact absurd h (by simp [beginsBy])
    | cons d text =>
      rw [beginsBy, Bool.and_eq_true] at h
      exact Nat.succ_le_succ (ih h.2)

theorem takes_literalBy (same : Char → Char → Bool) (text : List Char) :
    (literalBy same text).Takes text.length := by
  intro cursor a stop hread
  unfold literalBy at hread
  split at hread
  next h =>
    cases Option.some.inj hread
    refine ⟨_, ?_, List.take_prefix text.length cursor.rest, rfl⟩
    rw [List.length_take]
    exact Nat.le_min.mpr ⟨Nat.le_refl _, length_of_beginsBy h⟩
  next => exact absurd hread (by simp)

theorem takes_literal (text : String) : (literal text).Takes text.toList.length :=
  takes_literalBy _ _

theorem takes_word (text : String) : (word text).Takes text.toList.length :=
  takes_literalBy _ _

/-! ## Searching -/

/-- A search stops at the first place where the matcher succeeds. -/
theorem exists_of_findFrom? {matcher : Matcher α} {cursor : Cursor} {hit : Hit α}
    (h : matcher.findFrom? cursor.offset cursor.previous cursor.rest = some hit) :
    ∃ skipped, skipped <+: cursor.rest ∧ hit.start = cursor.behind skipped ∧
      matcher hit.start = some (hit.value, hit.stop) ∧
      ∀ front, front <+: skipped → front ≠ skipped → matcher (cursor.behind front) = none := by
  obtain ⟨offset, previous, rest⟩ := cursor
  induction rest generalizing offset previous with
  | nil =>
    rw [findFrom?] at h
    cases hmatcher : matcher ⟨offset, previous, []⟩ with
    | none => simp [hmatcher] at h
    | some read =>
      rw [hmatcher] at h
      cases Option.some.inj h
      refine ⟨[], List.nil_prefix, (Cursor.behind_nil _).symm, hmatcher, fun front hfront hne => ?_⟩
      exact absurd (List.prefix_nil.mp hfront) hne
  | cons c rest ih =>
    rw [findFrom?] at h
    cases hmatcher : matcher ⟨offset, previous, c :: rest⟩ with
    | none =>
      rw [hmatcher] at h
      obtain ⟨skipped, hskipped, hstart, hread, hnone⟩ := ih _ _ h
      refine ⟨c :: skipped, (List.prefix_cons_inj c).mpr hskipped, ?_, hread,
        fun front hfront hne => ?_⟩
      · rw [hstart, Cursor.behind_cons]
      · cases front with
        | nil => rwa [Cursor.behind_nil]
        | cons d front =>
          obtain ⟨rfl, hprefix⟩ := List.cons_prefix_cons.mp hfront
          rw [Cursor.behind_cons]
          exact hnone front hprefix fun heq => hne (heq ▸ rfl)
    | some read =>
      rw [hmatcher] at h
      cases Option.some.inj h
      refine ⟨[], List.nil_prefix, (Cursor.behind_nil _).symm, hmatcher, fun front hfront hne => ?_⟩
      exact absurd (List.prefix_nil.mp hfront) hne

/-- A search that finds nothing has tried every place. -/
theorem matcher_of_findFrom?_eq_none {matcher : Matcher α} {cursor : Cursor}
    (h : matcher.findFrom? cursor.offset cursor.previous cursor.rest = none)
    {front : List Char} (hfront : front <+: cursor.rest) :
    matcher (cursor.behind front) = none := by
  obtain ⟨offset, previous, rest⟩ := cursor
  induction rest generalizing offset previous front with
  | nil =>
    obtain rfl := List.prefix_nil.mp hfront
    rw [findFrom?] at h
    cases hmatcher : matcher ⟨offset, previous, []⟩ with
    | none => rwa [Cursor.behind_nil]
    | some read => simp [hmatcher] at h
  | cons c rest ih =>
    rw [findFrom?] at h
    cases hmatcher : matcher ⟨offset, previous, c :: rest⟩ with
    | none =>
      rw [hmatcher] at h
      cases front with
      | nil => rwa [Cursor.behind_nil]
      | cons d front =>
        obtain ⟨rfl, hprefix⟩ := List.cons_prefix_cons.mp hfront
        rw [Cursor.behind_cons]
        exact ih _ _ h hprefix
    | some read => simp [hmatcher] at h

theorem matcher_of_findFrom? {matcher : Matcher α} {cursor : Cursor} {hit : Hit α}
    (h : matcher.findFrom? cursor.offset cursor.previous cursor.rest = some hit) :
    matcher hit.start = some (hit.value, hit.stop) := by
  obtain ⟨_, -, -, hread, -⟩ := exists_of_findFrom? h
  exact hread

-- A search never goes back.
theorem suffix_of_findFrom? {matcher : Matcher α} {cursor : Cursor} {hit : Hit α}
    (h : matcher.findFrom? cursor.offset cursor.previous cursor.rest = some hit) :
    hit.start.rest <:+ cursor.rest := by
  obtain ⟨skipped, -, hstart, -⟩ := exists_of_findFrom? h
  rw [hstart]
  exact List.drop_suffix _ _

theorem find?_eq (matcher : Matcher α) (text : List Char) :
    matcher.find? text = matcher.findFrom? (Cursor.ofText text).offset
      (Cursor.ofText text).previous (Cursor.ofText text).rest := rfl

theorem find?_of_ofText {matcher : Matcher α} {text : List Char} {a : α} {stop : Cursor}
    (h : matcher (Cursor.ofText text) = some (a, stop)) :
    matcher.find? text = some ⟨Cursor.ofText text, a, stop⟩ := by
  have hread : matcher ⟨0, none, text⟩ = some (a, stop) := h
  rw [find?, findFrom?.eq_def, hread]
  rfl

theorem matcher_of_find? {matcher : Matcher α} {text : List Char} {hit : Hit α}
    (h : matcher.find? text = some hit) : matcher hit.start = some (hit.value, hit.stop) := by
  rw [find?_eq] at h
  exact matcher_of_findFrom? h

/-- The text of a match is at least as long as what the matcher takes. -/
theorem Takes.length_find? {matcher : Matcher α} {least : Nat} {text : List Char} {hit : Hit α}
    (h : matcher.Takes least) (hfind : matcher.find? text = some hit) :
    least ≤ hit.text.length :=
  Consumes.text h (matcher_of_find? hfind)

/-- Where the matcher succeeds at some place of a text, a search finds something. -/
theorem isSome_find? {matcher : Matcher α} {text front : List Char} (hfront : front <+: text)
    (h : (matcher ((Cursor.ofText text).behind front)).isSome = true) :
    (matcher.find? text).isSome = true := by
  rw [Option.isSome_iff_ne_none]
  intro hnone
  rw [find?_eq] at hnone
  simp [matcher_of_findFrom?_eq_none hnone hfront] at h

theorem matcher_of_mem_findAll {matcher : Matcher α} {text : List Char} {hit : Hit α}
    (h : hit ∈ matcher.findAll text) : matcher hit.start = some (hit.value, hit.stop) := by
  have hall (most : Nat) (cursor : Cursor) (h : hit ∈ matcher.findUpTo most cursor) :
      matcher hit.start = some (hit.value, hit.stop) := by
    induction most generalizing cursor with
    | zero => exact absurd h List.not_mem_nil
    | succ most ih =>
      rw [findUpTo] at h
      split at h
      next => exact absurd h List.not_mem_nil
      next first hfirst =>
        rcases List.mem_cons.mp h with rfl | hrest
        · exact matcher_of_findFrom? hfirst
        · split at hrest
          · exact ih _ hrest
          · exact absurd hrest List.not_mem_nil
  exact hall _ _ h

theorem findAll_eq (matcher : Matcher α) (text : List Char) :
    matcher.findAll text = matcher.findUpTo (text.length + 1) (Cursor.ofText text) := rfl

theorem mem_findAll_of_find? {matcher : Matcher α} {text : List Char} {hit : Hit α}
    (h : matcher.find? text = some hit) : hit ∈ matcher.findAll text := by
  rw [find?_eq] at h
  rw [findAll_eq, findUpTo, h]
  exact List.mem_cons_self

theorem prefix_append_of_behind {cursor : Cursor} {front back : List Char}
    (hfront : front <+: cursor.rest) (hback : back <+: (cursor.behind front).rest) :
    front ++ back <+: cursor.rest := by
  obtain ⟨rest, hrest⟩ := hfront
  rw [Cursor.rest_behind hrest.symm] at hback
  rw [← hrest]
  exact (List.prefix_append_right_inj front).mpr hback

/-- Every match stands behind some front of the text. -/
theorem exists_of_mem_findUpTo {matcher : Matcher α} (htakes : matcher.Takes 0) {most : Nat}
    {cursor : Cursor} {hit : Hit α} (h : hit ∈ matcher.findUpTo most cursor) :
    ∃ front, front <+: cursor.rest ∧ hit.start = cursor.behind front := by
  induction most generalizing cursor with
  | zero => exact absurd h List.not_mem_nil
  | succ most ih =>
    rw [findUpTo] at h
    split at h
    next => exact absurd h List.not_mem_nil
    next first hfirst =>
      obtain ⟨skipped, hskipped, hstart, hread, -⟩ := exists_of_findFrom? hfirst
      rcases List.mem_cons.mp h with rfl | hrest
      · exact ⟨skipped, hskipped, hstart⟩
      · split at hrest
        · obtain ⟨part, -, hpart, hstop⟩ := htakes _ _ _ hread
          obtain ⟨front, hfront, hhit⟩ := ih hrest
          rw [hstart] at hpart
          rw [hstop, hstart, ← Cursor.behind_append cursor skipped part] at hfront hhit
          exact ⟨(skipped ++ part) ++ front,
            prefix_append_of_behind (prefix_append_of_behind hskipped hpart) hfront,
            by rw [hhit, ← Cursor.behind_append]⟩
        · exact absurd hrest List.not_mem_nil

/-- Of two matches one stops before the other begins. -/
theorem pairwise_findUpTo {matcher : Matcher α} (htakes : matcher.Takes 0) (most : Nat)
    (cursor : Cursor) :
    (matcher.findUpTo most cursor).Pairwise fun a b => a.stop.offset ≤ b.start.offset := by
  induction most generalizing cursor with
  | zero => exact .nil
  | succ most ih =>
    rw [findUpTo]
    split
    next => exact .nil
    next first hfirst =>
      split
      · refine List.pairwise_cons.mpr ⟨fun hit hhit => ?_, ih _⟩
        obtain ⟨front, -, hstart⟩ := exists_of_mem_findUpTo htakes hhit
        rw [hstart]
        exact Nat.le_add_right _ _
      · exact List.pairwise_singleton _ _
/-- Every match is a part of the text, and is read as the matcher reads. -/
theorem Consumes.exists_of_mem_findAll {matcher : Matcher α} (h : matcher.Consumes spec)
    {text : List Char} {hit : Hit α} (hmem : hit ∈ matcher.findAll text) :
    ∃ front part, front ++ part <+: text ∧ spec part hit.value ∧
      hit.start.offset = front.length ∧ hit.stop.offset = (front ++ part).length := by
  have htakes : matcher.Takes 0 := h.imp fun _ _ _ => Nat.zero_le _
  have hread := matcher_of_mem_findAll hmem
  rw [findAll_eq] at hmem
  obtain ⟨front, hfront, hstart⟩ := exists_of_mem_findUpTo htakes hmem
  obtain ⟨part, hpart, hprefix, hstop⟩ := h _ _ _ hread
  rw [hstart] at hprefix
  refine ⟨front, part, prefix_append_of_behind hfront hprefix, hpart, ?_, ?_⟩
  · rw [hstart]
    exact Nat.zero_add _
  · rw [hstop, hstart, List.length_append]
    exact congrArg (· + part.length) (Nat.zero_add _)

theorem apart_of_mem_findAll {matcher : Matcher α} (htakes : matcher.Takes 0) {text : List Char}
    {a b : Hit α} (ha : a ∈ matcher.findAll text) (hb : b ∈ matcher.findAll text) (hne : a ≠ b) :
    a.stop.offset ≤ b.start.offset ∨ b.stop.offset ≤ a.start.offset := by
  have hsymm : Std.Symm fun a b : Hit α =>
      a.stop.offset ≤ b.start.offset ∨ b.stop.offset ≤ a.start.offset := ⟨fun _ _ => Or.symm⟩
  have hpairs : (matcher.findAll text).Pairwise fun a b =>
      a.stop.offset ≤ b.start.offset ∨ b.stop.offset ≤ a.start.offset :=
    (pairwise_findUpTo htakes _ _).imp .inl
  exact hpairs.forall ha hb hne

theorem Consumes.upTo {matcher : Matcher α} (h : matcher.Consumes spec) :
    matcher.upTo.Consumes fun part found =>
      ∃ back, part = found.1 ++ back ∧ spec back found.2 := by
  intro cursor found stop hread
  obtain ⟨hit, hfind, heq⟩ := Option.map_eq_some_iff.mp hread
  obtain ⟨rfl, rfl⟩ := Prod.mk.inj heq
  obtain ⟨skipped, ⟨rest, hrest⟩, hstart, hhit, -⟩ := exists_of_findFrom? hfind
  obtain ⟨back, hback, hprefix, hstop⟩ := h _ _ _ hhit
  have hsince : hit.start.since cursor = skipped := by
    rw [hstart, Cursor.since, Cursor.behind, Nat.add_sub_cancel_left, ← hrest, List.take_left]
  rw [hstart, Cursor.rest_behind hrest.symm] at hprefix
  refine ⟨skipped ++ back, ⟨back, by rw [hsince], hback⟩, ?_, ?_⟩
  · rw [← hrest]
    exact (List.prefix_append_right_inj skipped).mpr hprefix
  · rw [hstop, hstart, Cursor.behind_append]

-- The search goes on while the matcher fails.
theorem findFrom?_behind {matcher : Matcher α} {cursor stop : Cursor} {skipped rest : List Char}
    {a : α} (hcursor : cursor.rest = skipped ++ rest)
    (hskipped : ∀ front c back, skipped = front ++ c :: back →
      matcher.Fails (c :: back ++ rest))
    (hread : matcher (cursor.behind skipped) = some (a, stop)) :
    matcher.findFrom? cursor.offset cursor.previous cursor.rest =
      some ⟨cursor.behind skipped, a, stop⟩ := by
  induction skipped generalizing cursor with
  | nil =>
    rw [Cursor.behind_nil] at hread ⊢
    have hread' : matcher ⟨cursor.offset, cursor.previous, cursor.rest⟩ = some (a, stop) := hread
    rw [findFrom?.eq_def, hread']
  | cons c skipped ih =>
    have hfails : matcher ⟨cursor.offset, cursor.previous, c :: (skipped ++ rest)⟩ = none :=
      hskipped [] c skipped rfl _ rfl
    have hnext : (cursor.behind [c]).rest = skipped ++ rest := Cursor.rest_behind hcursor
    have hbehind : (cursor.behind [c]).behind skipped = cursor.behind (c :: skipped) :=
      (Cursor.behind_append cursor [c] skipped).symm
    have hfound := ih hnext
      (fun front d back hsplit => hskipped (c :: front) d back (by rw [hsplit]; rfl))
      (by rw [hbehind]; exact hread)
    rw [hnext, hbehind] at hfound
    rw [hcursor, List.cons_append, findFrom?, hfails]
    exact hfound

theorem reads_upTo {matcher : Matcher α} {skipped part rest : List Char} {a : α}
    (hskipped : ∀ front c back, skipped = front ++ c :: back →
      matcher.Fails (c :: back ++ (part ++ rest)))
    (hread : ∀ cursor : Cursor, cursor.rest = part ++ rest →
      (∀ c ∈ skipped.getLast?, cursor.previous = some c) →
        matcher cursor = some (a, cursor.behind part)) :
    matcher.upTo.Reads (skipped ++ part) rest (skipped, a) := by
  intro cursor hcursor
  rw [List.append_assoc] at hcursor
  have hbehind := hread (cursor.behind skipped) (Cursor.rest_behind hcursor)
    fun c hc => by simp [Cursor.behind, Option.mem_def.mp hc]
  rw [upTo, findFrom?_behind hcursor hskipped hbehind, Cursor.behind_append]
  simp [Cursor.since, Cursor.behind, hcursor]

theorem fails_upTo {matcher : Matcher α} {text : List Char}
    (h : ∀ rest, rest <:+ text → matcher.Fails rest) : matcher.upTo.Fails text := by
  intro cursor hcursor
  rw [upTo, Option.map_eq_none_iff]
  cases hfind : matcher.findFrom? cursor.offset cursor.previous cursor.rest with
  | none => rfl
  | some hit =>
    have hsuffix := suffix_of_findFrom? hfind
    rw [hcursor] at hsuffix
    have hfails := h _ hsuffix hit.start rfl
    rw [matcher_of_findFrom? hfind] at hfails
    exact absurd hfails (by simp)

/-! ## What must be left -/

/-- Wherever the matcher succeeds, at least `count` characters of a class are left. -/
def Needs (accepts : Char → Bool) (count : Nat) (matcher : Matcher α) : Prop :=
  ∀ (cursor : Cursor) (read : α × Cursor), matcher cursor = some read →
    count ≤ cursor.rest.countP accepts

variable {accepts : Char → Bool} {count : Nat}

theorem Needs.fails {matcher : Matcher α} {text : List Char} (h : matcher.Needs accepts count)
    (htext : text.countP accepts < count) : matcher.Fails text := by
  intro cursor hcursor
  cases hread : matcher cursor with
  | none => rfl
  | some read =>
    have hcount := h cursor read hread
    rw [hcursor] at hcount
    exact absurd hcount (Nat.not_le.mpr htext)

theorem needs_char_bind {next : Char → Matcher β} (hnext : ∀ c, (next c).Needs accepts count) :
    (char accepts >>= next).Needs accepts (count + 1) := by
  intro cursor read hread
  obtain ⟨⟨c, middle⟩, hchar, hafter⟩ := Option.bind_eq_some_iff.mp hread
  unfold char at hchar
  split at hchar
  next d rest hrest =>
    split at hchar
    next hd =>
      cases Option.some.inj hchar
      have hcount := hnext _ _ _ hafter
      rw [Cursor.rest_behind (show cursor.rest = [c] ++ rest from hrest)] at hcount
      rw [hrest, List.countP_cons_of_pos hd]
      exact Nat.succ_le_succ hcount
    next => exact absurd hchar (by simp)
  next => exact absurd hchar (by simp)

theorem Needs.bind {matcher : Matcher α} {next : α → Matcher β} (hfirst : matcher.Takes 0)
    (hnext : ∀ a, (next a).Needs accepts count) : (matcher >>= next).Needs accepts count := by
  intro cursor read hread
  obtain ⟨⟨a, middle⟩, hmatcher, hafter⟩ := Option.bind_eq_some_iff.mp hread
  obtain ⟨part, -, ⟨rest, hrest⟩, rfl⟩ := hfirst _ _ _ hmatcher
  have hcount := hnext a _ _ hafter
  rw [Cursor.rest_behind hrest.symm] at hcount
  rw [← hrest, List.countP_append]
  exact Nat.le_trans hcount (Nat.le_add_left _ _)

theorem Needs.andThen {matcher : Matcher α} (h : matcher.Needs accepts count)
    (next : α → Matcher β) : (matcher >>= next).Needs accepts count := by
  intro cursor read hread
  obtain ⟨first, hmatcher, -⟩ := Option.bind_eq_some_iff.mp hread
  exact h cursor first hmatcher

theorem Needs.either {left right : Matcher α} (hleft : left.Needs accepts count)
    (hright : right.Needs accepts count) : (left.either right).Needs accepts count := by
  intro cursor read hread
  rcases Option.or_eq_some_iff.mp hread with h | ⟨-, h⟩
  · exact hleft _ _ h
  · exact hright _ _ h

theorem Needs.upTo {matcher : Matcher α} (h : matcher.Needs accepts count) :
    matcher.upTo.Needs accepts count := by
  intro cursor read hread
  obtain ⟨hit, hfind, -⟩ := Option.map_eq_some_iff.mp hread
  have hcount := h _ _ (matcher_of_findFrom? hfind)
  exact Nat.le_trans hcount ((suffix_of_findFrom? hfind).sublist.countP_le)

end Matcher

end Scrutiny.Text
