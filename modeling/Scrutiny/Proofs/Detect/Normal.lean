import Mathlib.Data.List.DropRight
import Scrutiny.Proofs.Detect.Scanning

/-!
Normal forms.  What the scanner writes holds no comment, no blank but single spaces between other
characters, and of each string literal two quotes; so the scanner reads it as it stands, and the
normal form of a normal form is itself.
-/

namespace Scrutiny.Normal

open Text

variable {state : State} {c : Char} {next : Option Char} {written : List Char}

/-! ## 1. Normal texts -/

/-- A text without comments, and without blanks but single spaces between other characters. -/
structure IsClean (text : List Char) : Prop where
  lineComment : ¬ ['/', '/'] <:+: text
  blockComment : ¬ ['/', '*'] <:+: text
  blank : ∀ c ∈ text, isBlank c = true → c = ' '
  single : ¬ [' ', ' '] <:+: text
  start : text.head? ≠ some ' '
  finish : text.getLast? ≠ some ' '

/-- Every quote of the text stands in a pair of neighbours, and these are the quotes of the pairs in
order. -/
inductive Pairs : List Char → List Char → Prop
  | nil : Pairs [] []
  | other {quotes text : List Char} {c : Char} (hc : isQuote c = false) (h : Pairs quotes text) :
      Pairs quotes (c :: text)
  | pair {quotes text : List Char} {c : Char} (hc : isQuote c = true) (h : Pairs quotes text) :
      Pairs (c :: quotes) (c :: c :: text)

/-- What the scanner reads inside of a string before it leaves it. -/
def stringBody (state : State) : List Char → List Char
  | [] => []
  | c :: rest =>
      let after := step state c rest.head?
      if after.mode.isString then c :: stringBody after rest else []

/-- Reading the character opens a string literal. -/
def opensString (state : State) (c : Char) (next : Option Char) : Bool :=
  !state.mode.isString && (step state c next).mode.isString

/-- The string literals that the scanner meets, each with its quote and what stands in it. -/
def literals (state : State) : List Char → List (Char × List Char)
  | [] => []
  | c :: rest =>
      let after := step state c rest.head?
      if opensString state c rest.head? then (c, stringBody after rest) :: literals after rest
      else literals after rest

/-! ## 2. Comments and blanks -/

/-- A character that may stand directly behind another. -/
def MayFollow (a b : Char) : Prop :=
  (a = '/' → opensComment (some b) = false) ∧ (a = ' ' → b ≠ ' ')

/-- What has been written, last character first, may be the reverse of a clean text, but for a
space at its end. -/
structure IsTidy (written : List Char) : Prop where
  follows : written.IsChain fun b a => MayFollow a b
  blank : ∀ c ∈ written, isBlank c = true → c = ' '
  first : written.getLast? ≠ some ' '

theorem isTidy_nil : IsTidy [] :=
  ⟨.nil, by simp, by simp⟩

theorem IsTidy.cons (h : IsTidy written)
    (hslash : written.head? = some '/' → opensComment (some c) = false)
    (hblank : isBlank c = true → c = ' ' ∧ written ≠ [] ∧ written.head? ≠ some ' ') :
    IsTidy (c :: written) := by
  refine ⟨List.isChain_cons.mpr ⟨fun a ha => ⟨?_, ?_⟩, h.follows⟩, ?_, ?_⟩
  · rintro rfl
    exact hslash ha
  · rintro rfl rfl
    exact (hblank (by decide)).2.2 ha
  · rw [List.forall_mem_cons]
    exact ⟨fun hc => (hblank hc).1, h.blank⟩
  · cases written with
    | nil =>
      rw [List.getLast?_singleton, ne_eq, Option.some.injEq]
      rintro rfl
      exact (hblank (by decide)).2.1 rfl
    | cons a written => exact h.first

theorem IsTidy.writeBlank (h : IsTidy written) : IsTidy (writeBlank written) := by
  rcases writeBlank_cases written with ⟨heq, -⟩ | ⟨heq, hne, hhead⟩
  · rw [heq]
    exact h
  · rw [heq]
    exact h.cons (fun _ => by decide) fun _ => ⟨rfl, hne, hhead⟩

theorem isTidy_step (hsound : state.IsSound (some c)) (h : IsTidy state.written) :
    IsTidy (step state c next).written := by
  have hcase := stepCase state c next
  generalize step state c next = after at hcase ⊢
  have hslash := fun hhead => (hsound.slash hhead).2
  cases hcase with
  | inside => exact h
  | code hmode hstep =>
    cases hstep with
    | comment => exact h.writeBlank
    | blank => exact h.writeBlank
    | string hquote =>
      obtain ⟨-, -, hblank, hc⟩ := spec_of_isQuote hquote
      refine (h.cons hslash (by simp [hblank])).cons ?_ (by simp [hblank])
      exact fun hhead => absurd (Option.some.inj hhead) hc
    | number => exact h.cons (fun _ => by decide) fun hblank => absurd hblank (by decide)
    | other _ hblank => exact h.cons hslash fun h => absurd h (by simp [hblank])

/-! ## 3. Reading again -/

/-- What is written is written again when it is read, and the scanner ends in the given mode. -/
def Rereads (written : List Char) (mode : Mode) : Prop :=
  ∃ previous, scan .initial written.reverse = ⟨mode, previous, written⟩

theorem rereads_nil : Rereads [] .code :=
  ⟨none, rfl⟩

-- One more character that is written is one more to be read.
theorem scan_cons_reverse (h : written.head? = some '/' → opensComment (some c) = false) :
    scan .initial (c :: written).reverse = step (scan .initial written.reverse) c none := by
  have hahead : advance .initial (some c) written.reverse = scan .initial written.reverse := by
    rw [scan_eq_advance]
    apply advance_congr
    rw [List.getLast?_reverse]
    by_cases hhead : written.head? = some '/'
    · exact Or.inr ⟨h hhead, rfl⟩
    · exact Or.inl hhead
  rw [List.reverse_cons, scan_append, List.head?_cons, hahead]
  rfl

/-- A character is written again if it is read as itself behind what was written before. -/
theorem Rereads.cons {mode after : Mode} (h : Rereads written mode)
    (hslash : written.head? = some '/' → opensComment (some c) = false)
    (hstep : ∀ previous, previous.any isIdentChar = written.head?.any isIdentChar →
      ∃ previous', step ⟨mode, previous, written⟩ c none = ⟨after, previous', c :: written⟩) :
    Rereads (c :: written) after := by
  obtain ⟨previous, hscan⟩ := h
  have hprevious := (isSound_scan written.reverse).previous
  rw [hscan] at hprevious
  obtain ⟨previous', hafter⟩ := hstep previous hprevious
  exact ⟨previous', by rw [scan_cons_reverse hslash, hscan, hafter]⟩

theorem Rereads.quotes {mode : Mode} (h : Rereads written mode) (hmode : mode.isPlain = true)
    (hquote : isQuote c = true)
    (hslash : written.head? = some '/' → opensComment (some c) = false) :
    Rereads (c :: c :: written) .code := by
  obtain ⟨previous, hscan⟩ := h
  obtain ⟨-, -, -, hc⟩ := spec_of_isQuote hquote
  have hopen : step ⟨mode, previous, written⟩ c none = ⟨.string c, some c, c :: c :: written⟩ :=
    step_of_isQuote hquote hmode none
  have hbetween : (c :: written).head? = some '/' → opensComment (some c) = false :=
    fun hhead => absurd (Option.some.inj hhead) hc
  refine ⟨some c, ?_⟩
  rw [scan_cons_reverse hbetween, scan_cons_reverse hslash, hscan, hopen,
    step_closing_quote hquote]

theorem Rereads.zero (h : Rereads written .code)
    (hprevious : written.head?.any isIdentChar = false) : Rereads ('0' :: written) .number := by
  refine h.cons (fun _ => by decide) fun previous hsame => ⟨some '0', ?_⟩
  have hdigit : isAsciiDigit '0' = true := by decide
  have hquote : isQuote '0' = false := by decide
  rw [step_eq_stepCode (Or.inl rfl)]
  simp [stepCode, hdigit, hquote, hsame, hprevious]

theorem Rereads.space {mode : Mode} (h : Rereads written mode) (hmode : mode.isPlain = true)
    (hne : written ≠ []) (hhead : written.head? ≠ some ' ') : Rereads (' ' :: written) .code := by
  refine h.cons (fun _ => by decide) fun previous _ => ⟨some ' ', ?_⟩
  have hwrite : writeBlank written = ' ' :: written := by
    rcases writeBlank_cases written with ⟨-, hnil | hblank⟩ | ⟨heq, -⟩
    · exact absurd hnil hne
    · exact absurd hblank hhead
    · exact heq
  rw [step_of_isBlank hmode (by decide), hwrite]

theorem Rereads.other {mode : Mode} (h : Rereads written mode)
    (hmode : mode = .code ∨ mode = .number ∧ isNumberChar c = false) (hquote : isQuote c = false)
    (hblank : isBlank c = false)
    (hdigit : isAsciiDigit c = true → written.head?.any isIdentChar = true)
    (hslash : written.head? = some '/' → opensComment (some c) = false) :
    Rereads (c :: written) .code := by
  refine h.cons hslash fun previous hsame => ⟨some c, ?_⟩
  have hpart : isAsciiDigit c = true → previous.any isIdentChar = true := hsame ▸ hdigit
  rw [step_eq_stepCode hmode]
  simpa [stepCode, hquote, hblank] using hpart

/-- The mode of a scanner that has read what is written. -/
def State.outerMode (state : State) : Mode :=
  if state.mode = .number then .number else .code

theorem State.isPlain_outerMode (state : State) : state.outerMode.isPlain = true := by
  rw [outerMode]
  split <;> rfl

/-- What has been written is written again when it is read, with or without a space at its end. -/
structure State.IsStable (state : State) : Prop where
  rereads : Rereads state.written state.outerMode
  behindSpace : ∀ written, state.written = ' ' :: written → ∃ mode, Rereads written mode

theorem State.isStable_initial : State.initial.IsStable :=
  ⟨rereads_nil, by simp [initial]⟩

-- What a blank adds, if it adds anything, is a space behind what was stable.
theorem isStable_writeBlank {mode : Mode} {previous : Option Char}
    (hsound : state.IsSound (some c)) (h : state.IsStable) (hmode : mode ≠ .number) :
    State.IsStable ⟨mode, previous, writeBlank state.written⟩ := by
  have houter : State.outerMode ⟨mode, previous, writeBlank state.written⟩ = .code := if_neg hmode
  rcases writeBlank_cases state.written with ⟨heq, hwritten⟩ | ⟨heq, hne, hhead⟩
  · have hnumber : state.mode ≠ .number := by
      intro hnumber
      have hzero := hsound.number hnumber
      rcases hwritten with hnil | hblank
      · rw [hnil] at hzero
        simp at hzero
      · rw [hblank] at hzero
        simp at hzero
    have hcode : state.outerMode = .code := if_neg hnumber
    refine ⟨?_, by rw [heq]; exact h.behindSpace⟩
    rw [houter, heq, ← hcode]
    exact h.rereads
  · refine ⟨?_, fun written hspace => ?_⟩
    · rw [houter, heq]
      exact h.rereads.space state.isPlain_outerMode hne hhead
    · rw [heq] at hspace
      obtain ⟨-, rfl⟩ := List.cons.inj hspace
      exact ⟨_, h.rereads⟩

theorem isStable_step (hsound : state.IsSound (some c)) (h : state.IsStable) :
    (step state c next).IsStable := by
  have hcase := stepCase state c next
  generalize step state c next = after at hcase ⊢
  have hslash := fun hhead => (hsound.slash hhead).2
  cases hcase with
  | @inside mode _ hnumber _ =>
    refine ⟨?_, h.behindSpace⟩
    have houter : State.outerMode ⟨mode, state.previous, state.written⟩ = state.outerMode := by
      rw [State.outerMode, State.outerMode]
      simp only [hnumber]
    rw [houter]
    exact h.rereads
  | code hmode hstep =>
    have houter : state.outerMode = .code ∨
        state.outerMode = .number ∧ isNumberChar c = false := by
      rcases hmode with hcode | ⟨hline, -⟩ | ⟨hnumber, hend⟩
      · exact Or.inl (if_neg (by simp [hcode]))
      · exact Or.inl (if_neg (by simp [hline]))
      · exact Or.inr ⟨if_pos hnumber, hend⟩
    cases hstep with
    | comment hopening => exact isStable_writeBlank hsound h (by rintro rfl; simp at hopening)
    | blank => exact isStable_writeBlank hsound h (by simp)
    | string hquote =>
      refine ⟨h.rereads.quotes state.isPlain_outerMode hquote hslash, fun written hspace => ?_⟩
      obtain ⟨-, -, hblank, -⟩ := spec_of_isQuote hquote
      rw [(List.cons.inj hspace).1] at hblank
      exact absurd hblank (by decide)
    | number hdigit hprevious =>
      have hcode : state.outerMode = .code := by
        rcases houter with hcode | ⟨-, hend⟩
        · exact hcode
        · simp [isNumberChar, isAsciiAlphanumeric, hdigit] at hend
      refine ⟨Rereads.zero (hcode ▸ h.rereads) (hsound.previous ▸ hprevious), by simp⟩
    | other hquote hblank hdigit =>
      refine ⟨h.rereads.other houter hquote hblank (hsound.previous ▸ hdigit) hslash, ?_⟩
      intro written hspace
      rw [(List.cons.inj hspace).1] at hblank
      exact absurd hblank (by decide)

/-! ## 4. Strings -/

namespace Pairs

variable {quotes text : List Char}

theorem append {quotes' text' : List Char} (h : Pairs quotes text) (h' : Pairs quotes' text') :
    Pairs (quotes ++ quotes') (text ++ text') := by
  induction h with
  | nil => exact h'
  | other hc _ ih => exact .other hc ih
  | pair hc _ ih => exact .pair hc ih

theorem reverse (h : Pairs quotes text) : Pairs quotes.reverse text.reverse := by
  induction h with
  | nil => exact .nil
  | other hc _ ih =>
    have hlast := ih.append (.other hc .nil)
    rwa [List.append_nil, ← List.reverse_cons] at hlast
  | @pair quotes text c hc _ ih =>
    have hlast := ih.append (.pair hc .nil)
    rwa [show text.reverse ++ [c, c] = (c :: c :: text).reverse by simp,
      ← List.reverse_cons] at hlast

-- Blanks are no quotes.
theorem dropWhile (h : Pairs quotes text) : Pairs quotes (text.dropWhile isBlank) := by
  induction h with
  | nil => exact .nil
  | other hc h ih =>
    rw [List.dropWhile_cons]
    split
    · exact ih
    · exact .other hc h
  | pair hc h =>
    rw [List.dropWhile_cons, (spec_of_isQuote hc).2.2.1]
    exact .pair hc h

theorem writeBlank (h : Pairs quotes written) : Pairs quotes (writeBlank written) := by
  rcases writeBlank_cases written with ⟨heq, -⟩ | ⟨heq, -⟩
  · rwa [heq]
  · rw [heq]
    exact .other (by decide) h

end Pairs

-- What opens a string is its quote, which is written twice.
theorem of_opensString (h : opensString state c next = true) :
    isQuote c = true ∧ (step state c next).written = c :: c :: state.written := by
  obtain ⟨hbefore, hafter⟩ := Bool.and_eq_true_iff.mp h
  rw [Bool.not_eq_true'] at hbefore
  have hcase := stepCase state c next
  generalize step state c next = after at hcase hafter ⊢
  cases hcase with
  | inside _ _ hstring =>
    rw [hstring hafter] at hbefore
    exact absurd hbefore (by decide)
  | code _ hstep =>
    cases hstep with
    | string hquote => exact ⟨hquote, rfl⟩
    | comment hopening =>
      rcases hopening with rfl | rfl <;> exact absurd hafter Bool.false_ne_true
    | number | blank | other => exact absurd hafter Bool.false_ne_true

-- Only what opens a string writes quotes.
theorem pairs_of_not_opensString {quotes : List Char} (h : opensString state c next = false)
    (hpairs : Pairs quotes state.written) : Pairs quotes (step state c next).written := by
  rw [opensString] at h
  have hcase := stepCase state c next
  generalize step state c next = after at hcase h ⊢
  cases hcase with
  | inside => exact hpairs
  | code hmode hstep =>
    cases hstep with
    | comment | blank => exact hpairs.writeBlank
    | number => exact .other (by decide) hpairs
    | other hquote => exact .other hquote hpairs
    | string =>
      have houtside : state.mode.isString = false := by
        rcases hmode with hmode | ⟨hmode, -⟩ | ⟨hmode, -⟩ <;> rw [hmode] <;> rfl
      rw [houtside] at h
      exact absurd h.symm Bool.false_ne_true

/-- The scanner writes a pair of quotes for each literal that it meets. -/
theorem pairs_scan {quotes : List Char} (h : Pairs quotes state.written) (text : List Char) :
    Pairs (((literals state text).map Prod.fst).reverse ++ quotes) (scan state text).written := by
  induction text generalizing state quotes with
  | nil => exact h
  | cons c rest ih =>
    rw [literals, scan]
    split
    next hopens =>
      obtain ⟨hquote, hwritten⟩ := of_opensString hopens
      have hopened : Pairs (c :: quotes) (step state c rest.head?).written := by
        rw [hwritten]
        exact .pair hquote h
      rw [List.map_cons, List.reverse_cons, List.append_assoc]
      exact ih hopened
    next hopens => exact ih (pairs_of_not_opensString (eq_false_of_ne_true hopens) h)

theorem step_isPlain (hmode : state.mode.isPlain = true) (hquote : isQuote c = false)
    (hslash : c = '/' → opensComment next = false) : (step state c next).mode.isPlain = true := by
  have hcase := stepCase state c next
  generalize step state c next = after at hcase ⊢
  cases hcase with
  | inside hcode hnumber =>
    have hstate : state.mode = .number := by
      obtain ⟨mode, previous, written⟩ := state
      cases mode <;> simp_all [Mode.isPlain]
    rw [hnumber.mpr hstate]
    rfl
  | code _ hstep =>
    cases hstep with
    | comment _ hc hopens => exact absurd ((hslash hc).symm.trans hopens) Bool.false_ne_true
    | string hc => exact absurd (hquote.symm.trans hc) Bool.false_ne_true
    | number | blank | other => rfl

theorem Mode.isString_of_isPlain {mode : Mode} (h : mode.isPlain = true) :
    mode.isString = false := by
  cases mode with
  | code | number => rfl
  | _ => exact absurd h Bool.false_ne_true

/-- Where no slash opens a comment, and quotes stand in pairs, the scanner meets an empty literal
for each pair. -/
theorem literals_of_pairs {quotes text : List Char} (h : Pairs quotes text)
    (hfollows : text.IsChain MayFollow) (hmode : state.mode.isPlain = true) :
    literals state text = quotes.map fun quote => (quote, []) := by
  induction h generalizing state with
  | nil => rfl
  | @other quotes text c hc _ ih =>
    have hslash : c = '/' → opensComment text.head? = false := by
      intro hslash
      cases text with
      | nil => rfl
      | cons d text => exact (List.isChain_cons_cons.mp hfollows).1.1 hslash
    have hafter := step_isPlain hmode hc hslash
    have hopens : opensString state c text.head? = false := by
      rw [opensString, Mode.isString_of_isPlain hafter, Bool.and_false]
    rw [literals, if_neg (by simp [hopens])]
    exact ih hfollows.tail hafter
  | @pair quotes text c hc _ ih =>
    have hopen := step_of_isQuote hc hmode (some c)
    have hopens : opensString state c (some c) = true := by
      rw [opensString, hopen, Mode.isString_of_isPlain hmode]
      rfl
    have hclose := step_closing_quote hc (some c) (c :: c :: state.written) text.head?
    -- the second quote closes the string at once
    rw [literals, List.head?_cons, if_pos hopens, hopen, stringBody, literals, hclose]
    exact congrArg ((c, []) :: ·) (ih hfollows.tail.tail rfl)

/-! ## 5. Normal forms -/

/-- All that holds of the scanner behind a text. -/
theorem spec_scan (text : List Char) :
    IsTidy (scan .initial text).written ∧ (scan .initial text).IsStable := by
  have hall := scan_induction
    (fun state next => state.IsSound next ∧ IsTidy state.written ∧ state.IsStable)
    (fun state c next ⟨hsound, htidy, hstable⟩ =>
      ⟨State.isSound_step hsound, isTidy_step hsound htidy, isStable_step hsound hstable⟩)
    ⟨State.isSound_initial text.head?, isTidy_nil, State.isStable_initial⟩
  exact hall.2

/-- At most one space stands at the end of what is written. -/
theorem IsTidy.dropWhile_cases (h : IsTidy written) :
    written.dropWhile isBlank = written ∨ written = ' ' :: written.dropWhile isBlank := by
  cases written with
  | nil => exact Or.inl rfl
  | cons c written =>
    rw [List.dropWhile_cons]
    split
    next hblank =>
      have hc : c = ' ' := h.blank c List.mem_cons_self hblank
      subst hc
      refine Or.inr (congrArg _ ?_)
      cases written with
      | nil => rfl
      | cons d written =>
        have hd : d ≠ ' ' := fun hd => (List.isChain_cons_cons.mp h.follows).1.2 hd rfl
        have hsolid : isBlank d = false := by
          rw [← Bool.not_eq_true]
          exact fun hblank => hd (h.blank d (by simp) hblank)
        rw [List.dropWhile_cons, hsolid]
        rfl
    next => exact Or.inl rfl

theorem not_infix_of_isChain {text : List Char} {a b : Char} (h : text.IsChain MayFollow)
    (hab : ¬ MayFollow a b) : ¬ [a, b] <:+: text := by
  rintro ⟨front, back, rfl⟩
  rw [List.append_assoc] at h
  exact hab (List.isChain_cons_cons.mp h.right_of_append).1

theorem IsTidy.first_dropWhile (h : IsTidy written) :
    (written.dropWhile isBlank).getLast? ≠ some ' ' := by
  rcases h.dropWhile_cases with heq | heq
  · rw [heq]
    exact h.first
  · have hfirst := h.first
    rw [heq] at hfirst
    intro hlast
    cases hrest : written.dropWhile isBlank with
    | nil => simp [hrest] at hlast
    | cons c rest =>
      rw [hrest] at hlast hfirst
      exact hfirst hlast

theorem head?_dropWhile_ne (written : List Char) :
    (written.dropWhile isBlank).head? ≠ some ' ' := by
  intro hhead
  have hsolid := List.head?_dropWhile_not isBlank written
  rw [hhead] at hsolid
  exact absurd hsolid (by decide)

theorem IsTidy.follows_reverse (h : IsTidy written) :
    (written.dropWhile isBlank).reverse.IsChain MayFollow := by
  obtain ⟨front, hfront⟩ := List.dropWhile_suffix isBlank (l := written)
  rw [List.isChain_reverse]
  exact (hfront ▸ h.follows).right_of_append

/-- What is written, in order and without the blank at its end, is clean. -/
theorem IsTidy.isClean (h : IsTidy written) : IsClean (written.dropWhile isBlank).reverse := by
  have hfollows := h.follows_reverse
  constructor
  case lineComment =>
    exact not_infix_of_isChain hfollows fun hmay => absurd (hmay.1 rfl) (by decide)
  case blockComment =>
    exact not_infix_of_isChain hfollows fun hmay => absurd (hmay.1 rfl) (by decide)
  case single => exact not_infix_of_isChain hfollows fun hmay => hmay.2 rfl rfl
  case blank =>
    intro c hc
    exact h.blank c ((List.dropWhile_suffix isBlank).subset (List.mem_reverse.mp hc))
  case start =>
    rw [List.head?_reverse]
    exact h.first_dropWhile
  case finish =>
    rw [List.getLast?_reverse]
    exact head?_dropWhile_ne written

/-- Without the blank at its end, too, what is written is written again when it is read. -/
theorem rereads_dropWhile (text : List Char) :
    ∃ mode, Rereads ((scan .initial text).written.dropWhile isBlank) mode := by
  obtain ⟨htidy, hstable⟩ := spec_scan text
  rcases htidy.dropWhile_cases with heq | heq
  · rw [heq]
    exact ⟨_, hstable.rereads⟩
  · exact hstable.behindSpace _ heq

theorem chars_chars (text : List Char) : chars (chars text) = chars text := by
  obtain ⟨mode, previous, hscan⟩ := rereads_dropWhile text
  rw [chars, chars, hscan, List.dropWhile_idempotent]

theorem isClean_chars (text : List Char) : IsClean (chars text) :=
  (spec_scan text).1.isClean

theorem pairs_chars (text : List Char) :
    Pairs ((literals .initial text).map Prod.fst) (chars text) := by
  have hwritten : Pairs (((literals .initial text).map Prod.fst).reverse ++ [])
      (scan .initial text).written := pairs_scan .nil text
  rw [List.append_nil] at hwritten
  have hpairs := hwritten.dropWhile.reverse
  rwa [List.reverse_reverse] at hpairs

/-- The scanner meets the same literals in a normal form, emptied. -/
theorem literals_chars (text : List Char) :
    literals .initial (chars text) =
      (literals .initial text).map fun literal => (literal.1, []) := by
  rw [literals_of_pairs (pairs_chars text) (spec_scan text).1.follows_reverse rfl, List.map_map]
  rfl

theorem toList_form (text : String) : (form text).toList = chars text.toList :=
  String.toList_ofList

/-- A normal form is its own normal form.  It holds no comment, no blank but single spaces between
other characters, and no quote but a pair for each string literal of the text; read again, each of
these is an empty literal. -/
theorem form_isNormal (text : String) :
    form (form text) = form text ∧ IsClean (form text).toList ∧
      Pairs ((literals .initial text.toList).map Prod.fst) (form text).toList ∧
      literals .initial (form text).toList =
        (literals .initial text.toList).map fun literal => (literal.1, []) := by
  rw [← String.toList_inj, toList_form, toList_form]
  exact ⟨chars_chars _, isClean_chars _, pairs_chars _, literals_chars _⟩

end Scrutiny.Normal
