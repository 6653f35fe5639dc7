import Scrutiny.Proofs.Detect.Scanning
import Scrutiny.Text.Lines

/-!
What normal forms do not show.  Outside of comments and strings it makes no difference to the
scanner how a blank is written, what a string literal holds, or which numeric literal it reads:
either way it comes to states that go on alike.
-/

namespace Scrutiny.Normal

open Text

variable {state : State} {c : Char} {next : Option Char}

/-! ## 1. States that go on alike -/

/-- The states differ in the last character of code only, and in nothing that matters for a digit
behind it. -/
structure State.Alike (state other : State) : Prop where
  mode : state.mode = other.mode
  previous : state.previous.any isIdentChar = other.previous.any isIdentChar
  written : state.written = other.written

theorem State.Alike.refl (state : State) : state.Alike state :=
  ⟨rfl, rfl, rfl⟩

theorem State.Alike.stepCode {other : State} (h : state.Alike other) (c : Char)
    (next : Option Char) : (stepCode state c next).Alike (stepCode other c next) := by
  rw [Normal.stepCode, Normal.stepCode, h.previous, h.written]
  exact .refl _

theorem State.Alike.step {other : State} (h : state.Alike other) (c : Char) (next : Option Char) :
    (step state c next).Alike (step other c next) := by
  have hcode := h.stepCode c next
  obtain ⟨mode, previous, written⟩ := state
  obtain ⟨_, previous', _⟩ := other
  obtain ⟨rfl, hprevious, rfl⟩ := h
  have hmode (mode : Mode) : State.Alike ⟨mode, previous, written⟩ ⟨mode, previous', written⟩ :=
    ⟨rfl, hprevious, rfl⟩
  cases mode with
  | code => exact hcode
  | lineComment =>
    simp only [Normal.step]
    split
    · exact hcode
    · exact hmode _
  | number =>
    simp only [Normal.step]
    split
    · exact hmode _
    · exact hcode
  | blockOpening | escape => exact hmode _
  | blockComment afterStar =>
    simp only [Normal.step]
    split <;> exact hmode _
  | string quote =>
    simp only [Normal.step]
    split
    · exact hmode _
    · split <;> exact hmode _

theorem State.Alike.written_scan {other : State} (h : state.Alike other) (text : List Char) :
    (scan state text).written = (scan other text).written := by
  induction text generalizing state other with
  | nil => exact h.written
  | cons c rest ih => exact ih (h.step c rest.head?)

/-- Behind a text that ends in no slash, or before texts that make it open no comment, all depends
on what the scanner makes of what follows. -/
theorem chars_congr {front back back' : List Char}
    (hfront : front.getLast? ≠ some '/' ∨
      opensComment back.head? = false ∧ opensComment back'.head? = false)
    (h : (scan (scan .initial front) back).written = (scan (scan .initial front) back').written) :
    chars (front ++ back) = chars (front ++ back') := by
  have hahead (next : Option Char)
      (hnext : front.getLast? ≠ some '/' ∨ opensComment next = false) :
      advance .initial next front = scan .initial front := by
    rw [scan_eq_advance]
    exact advance_congr (hnext.imp_right fun hopens => ⟨hopens, rfl⟩) _
  rw [chars, chars, scan_append, scan_append, hahead _ (hfront.imp_right And.left),
    hahead _ (hfront.imp_right And.right), h]

/-! ## 2. Blanks -/

theorem writeBlank_writeBlank (written : List Char) :
    writeBlank (writeBlank written) = writeBlank written := by
  rcases writeBlank_cases written with ⟨heq, -⟩ | ⟨heq, -⟩
  · rw [heq, heq]
  · rw [heq]
    rfl

/-- A text that counts as one space before `back`: a complete block comment, some blanks, or a line
comment that ends where a line does. -/
inductive IsFiller (back : List Char) : List Char → Prop
  | block {body : List Char} (h : ¬ ['*', '/'] <:+: body) :
      IsFiller back ('/' :: '*' :: body ++ ['*', '/'])
  | blanks {blanks : List Char} (hne : blanks ≠ []) (h : isBlankText blanks = true) :
      IsFiller back blanks
  | line {body : List Char} (h : '\n' ∉ body) (hback : back = [] ∨ back.head? = some '\n') :
      IsFiller back ('/' :: '/' :: body)

-- The scanner leaves a block comment at the first star with a slash behind it.
theorem scan_blockBody {afterStar : Bool} {previous : Option Char} {written body : List Char}
    (hbody : ¬ ['*', '/'] <:+: body) (hstart : afterStar = true → body.head? ≠ some '/')
    (back : List Char) :
    scan ⟨.blockComment afterStar, previous, written⟩ (body ++ '*' :: '/' :: back) =
      scan ⟨.code, previous, written⟩ back := by
  induction body generalizing afterStar with
  | nil =>
    have hstar : step ⟨.blockComment afterStar, previous, written⟩ '*' (some '/') =
        ⟨.blockComment true, previous, written⟩ := by
      simp [step]
    rw [List.nil_append, scan, List.head?_cons, hstar]
    rfl
  | cons c body ih =>
    have hinside : (afterStar && c == '/') = false := by
      cases afterStar with
      | false => rfl
      | true => simpa using hstart rfl
    have hstep (next : Option Char) : step ⟨.blockComment afterStar, previous, written⟩ c next =
        ⟨.blockComment (c == '*'), previous, written⟩ := by
      simp [step, hinside]
    rw [List.cons_append, scan, hstep]
    refine ih (fun hend => hbody (hend.trans (List.suffix_cons c body).isInfix)) fun hc => ?_
    obtain rfl := beq_iff_eq.mp hc
    intro hslash
    obtain ⟨rest, rfl⟩ := List.head?_eq_some_iff.mp hslash
    exact hbody ⟨[], rest, rfl⟩

theorem scan_blanks (hmode : state.mode.isPlain = true) {blanks : List Char} (hne : blanks ≠ [])
    (h : isBlankText blanks = true) (back : List Char) :
    scan state (blanks ++ back) = scan ⟨.code, some ' ', writeBlank state.written⟩ back := by
  induction blanks generalizing state with
  | nil => exact absurd rfl hne
  | cons c blanks ih =>
    rw [isBlankText, List.all_cons, Bool.and_eq_true] at h
    rw [List.cons_append, scan, step_of_isBlank hmode h.1]
    by_cases hblanks : blanks = []
    · rw [hblanks, List.nil_append]
    · rw [ih rfl hblanks h.2, writeBlank_writeBlank]

theorem scan_blockComment (hmode : state.mode.isPlain = true) {body : List Char}
    (h : ¬ ['*', '/'] <:+: body) (back : List Char) :
    scan state ('/' :: '*' :: body ++ ['*', '/'] ++ back) =
      scan ⟨.code, none, writeBlank state.written⟩ back := by
  have hopen : step state '/' (some '*') = ⟨.blockOpening, none, writeBlank state.written⟩ := by
    rw [step_of_isPlain hmode (by decide)]
    rfl
  have htext : '/' :: '*' :: body ++ ['*', '/'] ++ back =
      '/' :: '*' :: (body ++ '*' :: '/' :: back) := by simp
  rw [htext, scan, List.head?_cons, hopen, scan]
  exact scan_blockBody h (by simp) back

-- The line comment ends with the line, and the line's end is one more blank.
theorem written_scan_lineComment (hmode : state.mode.isPlain = true) {body back : List Char}
    (h : '\n' ∉ body) (hback : back = [] ∨ back.head? = some '\n') :
    (scan state ('/' :: '/' :: body ++ back)).written =
      (scan ⟨.code, some ' ', writeBlank state.written⟩ back).written := by
  have hopen : step state '/' (some '/') = ⟨.lineComment, none, writeBlank state.written⟩ := by
    rw [step_of_isPlain hmode (by decide)]
    rfl
  have hbody : scan ⟨.lineComment, none, writeBlank state.written⟩ (('/' :: body) ++ back) =
      scan ⟨.lineComment, none, writeBlank state.written⟩ back := by
    have hinside : ∀ c ∈ '/' :: body, c ≠ '\n' := by
      rw [List.forall_mem_cons]
      exact ⟨by decide, fun c hc => ne_of_mem_of_not_mem hc h⟩
    generalize '/' :: body = inside at hinside
    induction inside with
    | nil => rfl
    | cons c inside ih =>
      rw [List.forall_mem_cons] at hinside
      have hstep (next : Option Char) : step ⟨.lineComment, none, writeBlank state.written⟩ c next =
          ⟨.lineComment, none, writeBlank state.written⟩ := by
        simp [step, hinside.1]
      rw [List.cons_append, scan, hstep, ih hinside.2]
  rw [List.cons_append, scan, List.cons_append, List.head?_cons, hopen, ← List.cons_append, hbody]
  rcases hback with rfl | hback
  · rfl
  · obtain ⟨rest, rfl⟩ := List.head?_eq_some_iff.mp hback
    rfl

/-- A filler goes on as a space does. -/
theorem written_scan_filler (hmode : state.mode.isPlain = true) {filler back : List Char}
    (h : IsFiller back filler) :
    (scan state (filler ++ back)).written = (scan state (' ' :: back)).written := by
  have hspace : scan state (' ' :: back) = scan ⟨.code, some ' ', writeBlank state.written⟩ back :=
    scan_blanks hmode (List.cons_ne_nil ' ' []) (by decide) back
  rw [hspace]
  cases h with
  | block hbody =>
    rw [scan_blockComment hmode hbody]
    have hprevious : (none : Option Char).any isIdentChar = (some ' ').any isIdentChar := by decide
    have halike : State.Alike ⟨.code, none, writeBlank state.written⟩
        ⟨.code, some ' ', writeBlank state.written⟩ := ⟨rfl, hprevious, rfl⟩
    exact halike.written_scan back
  | blanks hne hblank => rw [scan_blanks hmode hne hblank]
  | line hbody hback => exact written_scan_lineComment hmode hbody hback

/-! ## 3. String literals -/

/-- A text that goes from behind the quote that opens a string literal to its end: to the next such
quote that is not escaped, or to the end of the line if the quote is no backtick. -/
inductive ClosesString (quote : Char) : List Char → Prop
  | quote : ClosesString quote [quote]
  | lineEnd (h : quote ≠ '`') : ClosesString quote ['\n']
  | escaped {rest : List Char} (c : Char) (h : ClosesString quote rest) :
      ClosesString quote ('\\' :: c :: rest)
  | plain {rest : List Char} {c : Char} (hescape : c ≠ '\\') (hquote : c ≠ quote)
      (hline : c = '\n' → quote = '`') (h : ClosesString quote rest) :
      ClosesString quote (c :: rest)

-- What stands in a literal is not written.
theorem scan_closesString {quote : Char} (hquote : isQuote quote = true) {rest : List Char}
    (h : ClosesString quote rest) (previous : Option Char) (written back : List Char) :
    scan ⟨.string quote, previous, written⟩ (rest ++ back) =
      scan ⟨.code, previous, written⟩ back := by
  induction h with
  | quote => rw [List.singleton_append, scan, step_closing_quote hquote]
  | lineEnd hbacktick =>
    have hend (next : Option Char) : step ⟨.string quote, previous, written⟩ '\n' next =
        ⟨.code, previous, written⟩ := by
      simp [step, hbacktick]
    rw [List.singleton_append, scan, hend]
  | escaped c _ ih => exact ih
  | @plain rest c hescape hne hline _ ih =>
    have hend : (c == quote || (c == '\n' && quote != '`')) = false := by simpa [hne] using hline
    have hinside (next : Option Char) : step ⟨.string quote, previous, written⟩ c next =
        ⟨.string quote, previous, written⟩ := by
      simp [step, hescape, hend]
    rw [List.cons_append, scan, hinside, ih]

theorem opensComment_of_isQuote (h : isQuote c = true) : opensComment (some c) = false := by
  simp only [isQuote, Bool.or_eq_true, beq_iff_eq] at h
  rcases h with (rfl | rfl) | rfl <;> decide

/-- A string literal goes on as the empty one does, whatever it holds. -/
theorem scan_stringLiteral (hmode : state.mode.isPlain = true) {quote : Char}
    (hquote : isQuote quote = true) {rest : List Char} (h : ClosesString quote rest)
    (back : List Char) :
    scan state (quote :: rest ++ back) = scan state (quote :: quote :: back) := by
  have hopen (rest : List Char) (h : ClosesString quote rest) :
      scan state (quote :: (rest ++ back)) =
        scan ⟨.code, some quote, quote :: quote :: state.written⟩ back := by
    rw [scan, step_of_isQuote hquote hmode, scan_closesString hquote h]
  exact (hopen rest h).trans (hopen [quote] .quote).symm

/-! ## 4. Numeric literals -/

/-- Behind `last`, the last character of code is a part of a word only inside of a number, or if it
is the one just read. -/
def State.Recalls (state : State) (last : Option Char) : Prop :=
  state.previous.any isIdentChar = true →
    state.mode = .number ∨ state.mode = .code ∧ last.any isIdentChar = true

theorem State.recalls_step {last : Option Char} (h : state.Recalls last) (c : Char)
    (next : Option Char) : (step state c next).Recalls (some c) := by
  have hcase := stepCase state c next
  generalize step state c next = after at hcase ⊢
  cases hcase with
  | inside hcode hnumber =>
    intro hprevious
    rcases h hprevious with hmode | ⟨hmode, -⟩
    · exact Or.inl (hnumber.mpr hmode)
    · exact absurd hmode hcode
  | code hmode hstep =>
    cases hstep with
    | comment => exact fun hprevious => absurd hprevious Bool.false_ne_true
    | string hquote =>
      intro hprevious
      exact absurd ((spec_of_isQuote hquote).1.symm.trans hprevious) Bool.false_ne_true
    | number => exact fun _ => Or.inl rfl
    | blank =>
      have hblank : (some ' ').any isIdentChar = false := by decide
      exact fun hprevious => absurd (hblank.symm.trans hprevious) Bool.false_ne_true
    | other => exact fun hprevious => Or.inr ⟨rfl, hprevious⟩

theorem State.recalls_scan {last : Option Char} (h : state.Recalls last) (text : List Char) :
    (scan state text).Recalls (text.getLast?.or last) := by
  induction text generalizing state last with
  | nil => exact h
  | cons c rest ih =>
    have hlast : (c :: rest).getLast?.or last = rest.getLast?.or (some c) := by
      rw [List.getLast?_cons]
      cases rest.getLast? <;> rfl
    rw [scan, hlast]
    exact ih (state.recalls_step h c rest.head?)

-- Digits behind a text that ends in no word either open a number or go on one.
theorem previous_scan {front : List Char} (hlast : front.getLast?.any isIdentChar = false)
    (hcode : (scan .initial front).mode = .code) :
    (scan .initial front).previous.any isIdentChar = false := by
  have hrecalls : (scan .initial front).Recalls (front.getLast?.or none) :=
    State.recalls_scan (fun _ => Or.inr ⟨rfl, by assumption⟩) front
  rw [← Bool.not_eq_true]
  intro hprevious
  rw [Option.or_none] at hrecalls
  rcases hrecalls hprevious with hnumber | ⟨-, hident⟩
  · rw [hcode] at hnumber
    exact absurd hnumber (by decide)
  · exact absurd (hlast.symm.trans hident) Bool.false_ne_true

theorem scan_numberChars (hmode : state.mode = .number) {text : List Char}
    (h : ∀ c ∈ text, isNumberChar c = true) (back : List Char) :
    scan state (text ++ back) = scan state back := by
  induction text with
  | nil => rfl
  | cons c rest ih =>
    rw [List.forall_mem_cons] at h
    have hstep (next : Option Char) : step state c next = state := by
      rw [step, hmode]
      exact if_pos h.1
    rw [List.cons_append, scan, hstep, ih h.2]

-- A digit goes on a number and opens no string and no comment.
theorem spec_of_isAsciiDigit (h : isAsciiDigit c = true) :
    isNumberChar c = true ∧ isQuote c = false ∧ opensComment (some c) = false ∧ c ≠ '/' := by
  have hne (other : Char) (hother : isAsciiDigit other = false) : c ≠ other := by
    rintro rfl
    exact absurd (hother.symm.trans h) Bool.false_ne_true
  refine ⟨?_, ?_, ?_, hne '/' (by decide)⟩
  · simp [isNumberChar, isAsciiAlphanumeric, h]
  · simp [isQuote, hne '"' (by decide), hne '\'' (by decide), hne '`' (by decide)]
  · simp [opensComment, hne '/' (by decide), hne '*' (by decide)]

/-- A numeric literal goes on as a zero does. -/
theorem scan_numericLiteral (hmode : state.mode.isPlain = true)
    (hprevious : state.mode = .code → state.previous.any isIdentChar = false) {digit : Char}
    {tail : List Char} (hdigit : isAsciiDigit digit = true)
    (htail : ∀ c ∈ tail, isNumberChar c = true) (back : List Char) :
    scan state (digit :: tail ++ back) = scan state ('0' :: back) := by
  cases hstate : state.mode with
  | number =>
    have hzero : ∀ c ∈ ['0'], isNumberChar c = true := List.forall_mem_singleton.mpr (by decide)
    have hall : ∀ c ∈ digit :: tail, isNumberChar c = true :=
      List.forall_mem_cons.mpr ⟨(spec_of_isAsciiDigit hdigit).1, htail⟩
    exact (scan_numberChars hstate hall back).trans (scan_numberChars hstate hzero back).symm
  | code =>
    have hopen (digit : Char) (hdigit : isAsciiDigit digit = true) (next : Option Char) :
        step state digit next = ⟨.number, some '0', '0' :: state.written⟩ := by
      obtain ⟨-, hquote, -, hslash⟩ := spec_of_isAsciiDigit hdigit
      rw [step_eq_stepCode (Or.inl hstate)]
      simp [stepCode, hslash, hquote, hdigit, hprevious hstate]
    rw [List.cons_append, scan, hopen digit hdigit, scan_numberChars rfl htail, scan,
      hopen '0' (by decide)]
  | _ =>
    rw [hstate] at hmode
    exact absurd hmode Bool.false_ne_true

/-! ## 5. What normal forms do not show -/

theorem chars_filler {front filler back : List Char}
    (hplain : (scan .initial front).mode.isPlain = true) (hslash : front.getLast? ≠ some '/')
    (h : IsFiller back filler) :
    chars (front ++ (filler ++ back)) = chars (front ++ ' ' :: back) :=
  chars_congr (Or.inl hslash) (written_scan_filler hplain h)

theorem chars_stringLiteral {front rest back : List Char} {quote : Char}
    (hplain : (scan .initial front).mode.isPlain = true) (hquote : isQuote quote = true)
    (h : ClosesString quote rest) :
    chars (front ++ (quote :: rest ++ back)) = chars (front ++ quote :: quote :: back) := by
  have hahead : opensComment (quote :: rest ++ back).head? = false ∧
      opensComment (quote :: quote :: back).head? = false :=
    ⟨opensComment_of_isQuote hquote, opensComment_of_isQuote hquote⟩
  apply chars_congr (Or.inr hahead)
  rw [scan_stringLiteral hplain hquote h]

theorem chars_numericLiteral {front tail back : List Char} {digit : Char}
    (hplain : (scan .initial front).mode.isPlain = true)
    (hlast : front.getLast?.any isIdentChar = false) (hdigit : isAsciiDigit digit = true)
    (htail : ∀ c ∈ tail, isNumberChar c = true) :
    chars (front ++ (digit :: tail ++ back)) = chars (front ++ '0' :: back) := by
  have hahead : opensComment (digit :: tail ++ back).head? = false ∧
      opensComment ('0' :: back).head? = false :=
    ⟨(spec_of_isAsciiDigit hdigit).2.2.1, rfl⟩
  apply chars_congr (Or.inr hahead)
  rw [scan_numericLiteral hplain (previous_scan hlast) hdigit htail]

theorem form_congr {text other : String} (h : chars text.toList = chars other.toList) :
    form text = form other :=
  congrArg String.ofList h

/-- Behind a text that leaves the scanner in neither a string nor a comment, nothing of a comment,
of the layout or of a literal is seen in the normal form: a comment or some blanks count as one
space, a string literal as the empty one, and a numeric literal as a zero. -/
theorem form_erases (front back : String)
    (hplain : (scan .initial front.toList).mode.isPlain = true) :
    (front.toList.getLast? ≠ some '/' → ∀ filler, IsFiller back.toList filler →
      form (front ++ (String.ofList filler ++ back)) = form (front ++ (" " ++ back))) ∧
    (∀ quote rest, isQuote quote = true → ClosesString quote rest →
      form (front ++ (String.ofList (quote :: rest) ++ back)) =
        form (front ++ (String.ofList [quote, quote] ++ back))) ∧
    (front.toList.getLast?.any isIdentChar = false → ∀ digit tail, isAsciiDigit digit = true →
      (∀ c ∈ tail, isNumberChar c = true) →
      form (front ++ (String.ofList (digit :: tail) ++ back)) = form (front ++ ("0" ++ back))) := by
  refine ⟨?_, ?_, ?_⟩
  · intro hslash filler hfiller
    apply form_congr
    simp only [String.toList_append, String.toList_ofList]
    exact chars_filler hplain hslash hfiller
  · intro quote rest hquote hcloses
    apply form_congr
    simp only [String.toList_append, String.toList_ofList]
    exact chars_stringLiteral hplain hquote hcloses
  · intro hlast digit tail hdigit htail
    apply form_congr
    simp only [String.toList_append, String.toList_ofList]
    exact chars_numericLiteral hplain hlast hdigit htail

theorem form_erases_argument :
    form ("f(" ++ (String.ofList ['/', '*', 'n', '*', '/'] ++ ")")) =
        form ("f(" ++ (" " ++ ")")) ∧
      form ("f(" ++ (String.ofList ['"', 'n', '\\', '"', '"'] ++ ")")) =
        form ("f(" ++ (String.ofList ['"', '"'] ++ ")")) ∧
      form ("f(" ++ (String.ofList ['3', '0'] ++ ")")) = form ("f(" ++ ("0" ++ ")")) := by
  obtain ⟨hfiller, hstring, hnumber⟩ := form_erases "f(" ")" (by decide)
  have hbody : ¬ ['*', '/'] <:+: ['n'] := by decide
  have hliteral : ClosesString '"' ['n', '\\', '"', '"'] :=
    .plain (by decide) (by decide) (by decide) (.escaped '"' .quote)
  have htail : ∀ c ∈ ['0'], isNumberChar c = true := List.forall_mem_singleton.mpr (by decide)
  exact ⟨hfiller (by decide) _ (.block hbody), hstring _ _ (by decide) hliteral,
    hnumber (by decide) _ _ (by decide) htail⟩

end Scrutiny.Normal
