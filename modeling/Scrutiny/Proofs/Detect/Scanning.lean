import Mathlib.Data.List.Chain
import Scrutiny.Detect.Normal
import Scrutiny.Proofs.Text.CharClass

/-!
The scanner of code, step by step.  It looks one character ahead, which matters behind a slash
only; and what it remembers of the code that it has read, it could read off what it has written.
-/

namespace Scrutiny.Normal

open Text

variable {state : State} {c : Char} {next : Option Char}

/-! ## 1. Reading on -/

/-- Reads a text that `next` comes after. -/
def advance (state : State) (next : Option Char) : List Char → State
  | [] => state
  | c :: rest => advance (step state c (rest.head?.or next)) next rest

theorem scan_append (state : State) (front back : List Char) :
    scan state (front ++ back) = scan (advance state back.head? front) back := by
  induction front generalizing state with
  | nil => rfl
  | cons c front ih => rw [List.cons_append, scan, List.head?_append, ih, advance]

theorem scan_eq_advance (state : State) (text : List Char) :
    scan state text = advance state none text := by
  have h := scan_append state text []
  rwa [List.append_nil] at h

/-- What every step keeps, given the character that comes next, holds at the end of a text. -/
theorem scan_induction (holds : State → Option Char → Prop)
    (hstep : ∀ state c next, holds state (some c) → holds (step state c next) next)
    {text : List Char} (h : holds state text.head?) : holds (scan state text) none := by
  induction text generalizing state with
  | nil => exact h
  | cons c rest ih => exact ih (hstep state c rest.head? h)

/-! ## 2. Looking ahead -/

/-- The character makes a slash before it open a comment. -/
def opensComment (next : Option Char) : Bool :=
  next == some '/' || next == some '*'

theorem stepCode_of_not_slash (h : c ≠ '/') (state : State) (next next' : Option Char) :
    stepCode state c next = stepCode state c next' := by
  simp [stepCode, h]

theorem stepCode_of_not_opensComment (h : opensComment next = false) (state : State) (c : Char) :
    stepCode state c next = stepCode state c none := by
  obtain ⟨hline, hblock⟩ := (Bool.or_eq_false_iff.mp h)
  simp [stepCode, hline, hblock]

/-- What comes next does not matter, unless it makes a slash open a comment. -/
theorem stepCode_congr {next' : Option Char}
    (h : c ≠ '/' ∨ opensComment next = false ∧ opensComment next' = false) (state : State) :
    stepCode state c next = stepCode state c next' := by
  rcases h with hc | ⟨hnext, hnext'⟩
  · exact stepCode_of_not_slash hc state next next'
  · rw [stepCode_of_not_opensComment hnext, stepCode_of_not_opensComment hnext']

theorem step_congr {next' : Option Char}
    (h : c ≠ '/' ∨ opensComment next = false ∧ opensComment next' = false) (state : State) :
    step state c next = step state c next' := by
  obtain ⟨mode, previous, written⟩ := state
  cases mode <;> simp only [step, stepCode_congr h]

theorem advance_congr {next' : Option Char} {text : List Char}
    (h : text.getLast? ≠ some '/' ∨ opensComment next = false ∧ opensComment next' = false)
    (state : State) : advance state next text = advance state next' text := by
  induction text generalizing state with
  | nil => rfl
  | cons c rest ih =>
    cases rest with
    | nil =>
      have hc : c ≠ '/' ∨ opensComment next = false ∧ opensComment next' = false := by
        simpa using h
      exact step_congr hc state
    | cons d rest => exact ih (by simpa using h) _

/-! ## 3. Steps -/

-- A quote is part of no word and no number, is no blank and opens no comment.
theorem spec_of_isQuote (h : isQuote c = true) :
    isIdentChar c = false ∧ isNumberChar c = false ∧ isBlank c = false ∧ c ≠ '/' := by
  simp only [isQuote, Bool.or_eq_true, beq_iff_eq] at h
  rcases h with (rfl | rfl) | rfl <;> decide

/-- Inside of a string literal. -/
def Mode.isString : Mode → Bool
  | string _ => true
  | escape _ => true
  | _ => false

/-- Inside of neither a string literal nor a comment. -/
def Mode.isPlain : Mode → Bool
  | code => true
  | number => true
  | _ => false

/-- What reading a character of code makes of a state. -/
inductive CodeStep (state : State) (c : Char) (next : Option Char) : State → Prop
  | comment {mode : Mode} (hmode : mode = .lineComment ∨ mode = .blockOpening) (hslash : c = '/')
      (hopens : opensComment next = true) :
      CodeStep state c next ⟨mode, none, writeBlank state.written⟩
  | string (hquote : isQuote c = true) :
      CodeStep state c next ⟨.string c, some c, c :: c :: state.written⟩
  | number (hdigit : isAsciiDigit c = true) (hprevious : state.previous.any isIdentChar = false) :
      CodeStep state c next ⟨.number, some '0', '0' :: state.written⟩
  | blank (hblank : isBlank c = true) :
      CodeStep state c next ⟨.code, some ' ', writeBlank state.written⟩
  | other (hquote : isQuote c = false) (hblank : isBlank c = false)
      (hdigit : isAsciiDigit c = true → state.previous.any isIdentChar = true)
      (hslash : c = '/' → opensComment next = false) :
      CodeStep state c next ⟨.code, some c, c :: state.written⟩

theorem codeStep (state : State) (c : Char) (next : Option Char) :
    CodeStep state c next (stepCode state c next) := by
  fun_cases stepCode state c next with
  | case1 hline =>
    rw [Bool.and_eq_true, beq_iff_eq] at hline
    exact .comment (Or.inl rfl) hline.1 (by rw [opensComment, hline.2, Bool.true_or])
  | case2 _ hblock =>
    rw [Bool.and_eq_true, beq_iff_eq] at hblock
    exact .comment (Or.inr rfl) hblock.1 (by rw [opensComment, hblock.2, Bool.or_true])
  | case3 _ _ hquote => exact .string hquote
  | case4 _ _ _ hdigit =>
    rw [Bool.and_eq_true, Bool.not_eq_true'] at hdigit
    exact .number hdigit.1 hdigit.2
  | case5 _ _ _ _ hblank => exact .blank hblank
  | case6 hline hblock hquote hdigit hblank =>
    refine .other (eq_false_of_ne_true hquote) (eq_false_of_ne_true hblank) ?_ ?_
    · simpa using hdigit
    · rintro rfl
      simpa [opensComment] using And.intro hline hblock

/-- What reading a character makes of a state: inside of a comment or of a literal nothing is
written, and all else is read as code. -/
inductive StepCase (state : State) (c : Char) (next : Option Char) : State → Prop
  | inside {mode : Mode} (hcode : state.mode ≠ .code)
      (hnumber : mode = .number ↔ state.mode = .number)
      (hstring : mode.isString = true → state.mode.isString = true) :
      StepCase state c next ⟨mode, state.previous, state.written⟩
  | code {after : State} (hmode : state.mode = .code ∨ state.mode = .lineComment ∧ c = '\n' ∨
        state.mode = .number ∧ isNumberChar c = false)
      (hstep : CodeStep state c next after) : StepCase state c next after

theorem stepCase (state : State) (c : Char) (next : Option Char) :
    StepCase state c next (step state c next) := by
  fun_cases step state c next with
  | case1 hmode => exact .code (Or.inl hmode) (codeStep state c next)
  | case2 hmode hend =>
    exact .code (Or.inr (Or.inl ⟨hmode, beq_iff_eq.mp hend⟩)) (codeStep state c next)
  | case3 hmode | case9 _ hmode | case11 hmode =>
    exact .inside (by simp [hmode]) Iff.rfl id
  | case4 hmode | case5 _ hmode | case6 _ hmode | case7 _ hmode | case8 _ hmode | case10 _ hmode =>
    exact .inside (by simp [hmode]) (by simp [hmode]) (by simp [hmode, Mode.isString])
  | case12 hmode hend =>
    exact .code (Or.inr (Or.inr ⟨hmode, eq_false_of_ne_true hend⟩)) (codeStep state c next)

/-- Outside of comments and literals characters are read as code. -/
theorem step_eq_stepCode (h : state.mode = .code ∨ state.mode = .number ∧ isNumberChar c = false)
    (next : Option Char) : step state c next = stepCode state c next := by
  rcases h with hmode | ⟨hmode, hend⟩
  · rw [step, hmode]
  · rw [step, hmode]
    exact if_neg (Bool.eq_false_iff.mp hend)

theorem stepCode_of_isQuote (h : isQuote c = true) (state : State) (next : Option Char) :
    stepCode state c next = ⟨.string c, some c, c :: c :: state.written⟩ := by
  obtain ⟨-, -, -, hslash⟩ := spec_of_isQuote h
  simp [stepCode, hslash, h]

-- So is whatever does not go on a numeric literal, outside of comments and strings.
theorem step_of_isPlain (hmode : state.mode.isPlain = true) (hc : isNumberChar c = false)
    (next : Option Char) : step state c next = stepCode state c next := by
  apply step_eq_stepCode
  cases hstate : state.mode with
  | code => exact Or.inl rfl
  | number => exact Or.inr ⟨rfl, hc⟩
  | _ =>
    rw [hstate] at hmode
    exact absurd hmode Bool.false_ne_true

/-- A quote opens a string, wherever it is read outside of comments and strings. -/
theorem step_of_isQuote (hquote : isQuote c = true) (hmode : state.mode.isPlain = true)
    (next : Option Char) : step state c next = ⟨.string c, some c, c :: c :: state.written⟩ := by
  rw [step_of_isPlain hmode (spec_of_isQuote hquote).2.1, stepCode_of_isQuote hquote]

-- Blanks end numbers, are no digits and open no comment.
theorem spec_of_isBlank (h : isBlank c = true) :
    isNumberChar c = false ∧ isAsciiDigit c = false ∧ isQuote c = false ∧ c ≠ '/' := by
  apply forall_of_isBlank _ c h
  decide

/-- A blank is read as one outside of comments and strings. -/
theorem step_of_isBlank (hmode : state.mode.isPlain = true) (hblank : isBlank c = true)
    (next : Option Char) : step state c next = ⟨.code, some ' ', writeBlank state.written⟩ := by
  obtain ⟨hnumber, hdigit, hquote, hslash⟩ := spec_of_isBlank hblank
  rw [step_of_isPlain hmode hnumber]
  simp [stepCode, hdigit, hquote, hslash, hblank]

-- Behind its own quote the string is over.
theorem step_closing_quote (hquote : isQuote c = true) (previous : Option Char)
    (written : List Char) (next : Option Char) :
    step ⟨.string c, previous, written⟩ c next = ⟨.code, previous, written⟩ := by
  have hescape : (c == '\\') = false := by
    rw [beq_eq_false_iff_ne]
    rintro rfl
    exact absurd hquote (by decide)
  simp [step, hescape]

/-! ## 4. What is remembered -/

theorem writeBlank_cases (written : List Char) :
    writeBlank written = written ∧ (written = [] ∨ written.head? = some ' ') ∨
      writeBlank written = ' ' :: written ∧ written ≠ [] ∧ written.head? ≠ some ' ' := by
  fun_cases writeBlank written with
  | case1 => exact Or.inl ⟨rfl, Or.inl rfl⟩
  | case2 => exact Or.inl ⟨rfl, Or.inr rfl⟩
  | case3 _ hnil hblank =>
    refine Or.inr ⟨rfl, hnil, fun hhead => ?_⟩
    obtain ⟨rest, hrest⟩ := List.head?_eq_some_iff.mp hhead
    exact hblank rest hrest

theorem head?_writeBlank (written : List Char) :
    (writeBlank written).head? = none ∨ (writeBlank written).head? = some ' ' := by
  rcases writeBlank_cases written with ⟨heq, rfl | hhead⟩ | ⟨heq, -⟩
  · exact Or.inl rfl
  · exact Or.inr (by rw [heq, hhead])
  · exact Or.inr (by rw [heq]; rfl)

theorem head?_writeBlank_ne_slash (written : List Char) :
    (writeBlank written).head? ≠ some '/' := by
  intro hslash
  rcases head?_writeBlank written with hhead | hhead <;> rw [hhead] at hslash <;> simp at hslash

theorem any_head?_writeBlank (written : List Char) :
    (writeBlank written).head?.any isIdentChar = false := by
  rcases head?_writeBlank written with hhead | hhead <;> rw [hhead] <;> decide

/-- What holds of a state that a text before `next` leads to: the last character of code is as much
part of a word as the last one written is, a slash was written only before a character that opens no
comment behind it, and a numeric literal was written as zero. -/
structure State.IsSound (state : State) (next : Option Char) : Prop where
  previous : state.previous.any isIdentChar = state.written.head?.any isIdentChar
  slash : state.written.head? = some '/' → state.mode = .code ∧ opensComment next = false
  number : state.mode = .number → state.written.head? = some '0'

theorem State.isSound_initial (next : Option Char) : State.initial.IsSound next :=
  ⟨rfl, by simp [initial], by simp [initial]⟩

theorem State.isSound_step (h : state.IsSound (some c)) : (step state c next).IsSound next := by
  have hcase := stepCase state c next
  generalize step state c next = after at hcase ⊢
  cases hcase with
  | inside hcode hnumber =>
    exact ⟨h.previous, fun hslash => absurd (h.slash hslash).1 hcode,
      fun hmode => h.number (hnumber.mp hmode)⟩
  | code hmode hstep =>
    cases hstep with
    | comment hopening _ _ =>
      refine ⟨(any_head?_writeBlank _).symm,
        fun hslash => absurd hslash (head?_writeBlank_ne_slash _), ?_⟩
      rintro rfl
      simp at hopening
    | string hquote =>
      obtain ⟨-, -, -, hslash⟩ := spec_of_isQuote hquote
      exact ⟨rfl, fun hhead => absurd (Option.some.inj hhead) hslash, by simp⟩
    | number => exact ⟨rfl, by simp, fun _ => rfl⟩
    | blank =>
      have hprevious : (some ' ').any isIdentChar = false := by decide
      exact ⟨hprevious.trans (any_head?_writeBlank _).symm,
        fun hslash => absurd hslash (head?_writeBlank_ne_slash _), by simp⟩
    | other _ _ _ hslash =>
      exact ⟨rfl, fun hc => ⟨rfl, hslash (Option.some.inj hc)⟩, by simp⟩

/-- Every text leads to a sound state. -/
theorem isSound_scan (text : List Char) : (scan .initial text).IsSound none :=
  scan_induction State.IsSound (fun _ _ _ h => State.isSound_step h) (State.isSound_initial _)

end Scrutiny.Normal
