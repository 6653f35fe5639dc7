import Scrutiny.Detect.Rules
import Scrutiny.Proofs.Detect.ImportForm

/-!
Which imports the check for a package sees.  What it matches ends with a quoted module name, the
only one in it, which is that of the package or of something in the package; and it misses no such
module name behind one of the ways to write an import.
-/

namespace Scrutiny.Rules

open Text Matcher

/-! ## 1. Imports as they are written -/

/-- The module is the package, or something in it after a slash or a dot. -/
def IsWithin (package target : List Char) : Prop :=
  target = package ∨ ∃ rest, target = package ++ '/' :: rest ∨ target = package ++ '.' :: rest

/-- No quote stands in the text. -/
def Unquoted (text : List Char) : Prop :=
  ∀ c ∈ text, isQuote c = false

instance (text : List Char) : Decidable (Unquoted text) :=
  List.decidableBAll (fun c => isQuote c = false) text

/-- The ways to write an import up to the quote that opens the name of the module: the keyword
alone, a call, and a clause that ends with the word `from`. -/
inductive IsLead : List Char → Prop
  | bare {gap : List Char} (gap_isBlank : isBlankText gap = true) (gap_ne_nil : gap ≠ []) :
      IsLead ("import".toList ++ gap)
  | call {name : String} {gap inner : List Char} (name_mem : name ∈ ["require", "import"])
      (gap_isBlank : isBlankText gap = true) (inner_isBlank : isBlankText inner = true) :
      IsLead (name.toList ++ (gap ++ '(' :: inner))
  | clause {keyword : String} {gap clause before after : List Char}
      (keyword_mem : keyword ∈ ["import", "export"])
      (gap_isBlank : isBlankText gap = true) (gap_ne_nil : gap ≠ [])
      (clause_chars : ∀ c ∈ clause, isQuote c = false ∧ c ≠ ';')
      (before_isBlank : isBlankText before = true) (before_ne_nil : before ≠ [])
      (after_isBlank : isBlankText after = true) (after_ne_nil : after ≠ []) :
      IsLead (keyword.toList ++ (gap ++ (clause ++ (before ++ ("from".toList ++ after)))))

/-! ## 2. What is matched -/

theorem unquoted_append {front back : List Char} :
    Unquoted (front ++ back) ↔ Unquoted front ∧ Unquoted back :=
  List.forall_mem_append

-- Texts without quotes one after the other have none.
theorem Consumes.bind_unquoted {α β : Type} {matcher : Matcher α} {next : α → Matcher β}
    (hfirst : matcher.Consumes fun part _ => Unquoted part)
    (hnext : ∀ a, (next a).Consumes fun part _ => Unquoted part) :
    (matcher >>= next).Consumes fun part _ => Unquoted part :=
  hfirst.bind hnext fun _ _ _ _ hfront hback => unquoted_append.mpr ⟨hfront, hback⟩

theorem consumes_unquoted_assert (condition : Cursor → Bool) :
    (assert condition).Consumes fun part _ => Unquoted part :=
  (consumes_assert condition).imp fun _ _ h => by simp [h.1, Unquoted]

theorem consumes_unquoted_literal {text : String} (htext : Unquoted text.toList) :
    (literal text).Consumes fun part _ => Unquoted part :=
  (consumes_literal text).imp fun _ _ h => h ▸ htext

theorem consumes_unquoted_run {least : Nat} {accepts : Char → Bool}
    (haccepts : ∀ c, accepts c = true → isQuote c = false) :
    (run least accepts).Consumes fun part _ => Unquoted part := by
  refine (consumes_run least accepts).imp fun part text h c hc => ?_
  rw [h.1] at hc
  exact haccepts c (List.all_eq_true.mp h.2.2 c hc)

theorem consumes_keywordThen {keyword : String} (hkeyword : Unquoted keyword.toList)
    (holds : List Char → Bool) :
    (keywordThen keyword holds).Consumes fun part _ => Unquoted part := by
  refine Consumes.bind_unquoted (consumes_unquoted_assert _) fun _ =>
    Consumes.bind_unquoted (consumes_unquoted_literal hkeyword) fun _ =>
      Consumes.bind_unquoted (consumes_unquoted_run fun c hc => ?_) fun _ =>
        consumes_unquoted_assert _
  simp only [Bool.and_eq_true, Bool.not_eq_true'] at hc
  exact hc.1

theorem consumes_callOf {name : String} (hname : Unquoted name.toList) :
    (callOf name).Consumes fun part _ => Unquoted part := by
  have hblanks : blanks.Consumes fun part _ => Unquoted part :=
    consumes_unquoted_run fun _ hc => Imports.isQuote_of_isBlank hc
  exact Consumes.bind_unquoted (consumes_unquoted_assert _) fun _ =>
    Consumes.bind_unquoted (consumes_unquoted_literal hname) fun _ =>
      Consumes.bind_unquoted hblanks fun _ =>
        Consumes.bind_unquoted (consumes_unquoted_literal (by decide)) fun _ =>
          Consumes.bind_unquoted hblanks fun _ =>
            consumes_pure (by simp [Unquoted])

theorem consumes_importStart : importStart.Consumes fun part _ => Unquoted part := by
  refine consumes_anyOf ?_
  simp only [List.forall_mem_cons, List.not_mem_nil, false_imp_iff, implies_true, and_true]
  exact ⟨consumes_keywordThen (by decide) _, consumes_keywordThen (by decide) _,
    consumes_callOf (by decide), consumes_callOf (by decide)⟩

/-- What may stand between the name of a package and the closing quote. -/
def IsSubpath (text : List Char) : Prop :=
  text = [] ∨ ∃ c rest, text = c :: rest ∧ (c = '/' ∨ c = '.') ∧ Unquoted rest

def subpath : Matcher (Option (List Char)) :=
  optional do
    let _ ← char fun c => c == '/' || c == '.'
    run 0 fun c => !isQuote c

theorem consumes_subpath : subpath.Consumes fun part _ => IsSubpath part := by
  have hfull : (char (fun c => c == '/' || c == '.') >>= fun _ =>
      run 0 fun c => !isQuote c).Consumes fun part _ => IsSubpath part := by
    refine (consumes_char _).bind (fun _ => consumes_unquoted_run fun c hc => by simpa using hc) ?_
    rintro front c back _ ⟨rfl, hc⟩ hback
    exact .inr ⟨c, back, rfl, by simpa using hc, hback⟩
  refine (Consumes.optional hfull).imp ?_
  rintro part _ (h | ⟨-, h⟩)
  · exact .inl h
  · exact h

theorem IsSubpath.isWithin {text : List Char} (h : IsSubpath text) (package : List Char) :
    IsWithin package (package ++ text) := by
  rcases h with rfl | ⟨c, rest, rfl, rfl | rfl, -⟩
  · exact .inl (List.append_nil package)
  · exact .inr ⟨rest, .inl rfl⟩
  · exact .inr ⟨rest, .inr rfl⟩

theorem IsSubpath.unquoted {text : List Char} (h : IsSubpath text) : Unquoted text := by
  rcases h with rfl | ⟨c, rest, rfl, hc, hrest⟩
  · simp [Unquoted]
  · refine List.forall_mem_cons.mpr ⟨?_, hrest⟩
    rcases hc with rfl | rfl <;> rfl

/-- A quoted module name, that of the package or of something in it. -/
def IsQuotedName (package text : List Char) : Prop :=
  ∃ opening target closing, text = opening :: (target ++ [closing]) ∧ isQuote opening = true ∧
    isQuote closing = true ∧ IsWithin package target ∧ (Unquoted package → Unquoted target)

/-- What the check matches ends with a quoted module name. -/
theorem consumes_importOf (package : String) :
    (importOf package).Consumes fun part _ => ∃ front quoted, part = front ++ quoted ∧
      Unquoted front ∧ IsQuotedName package.toList quoted := by
  have hclosing : (char isQuote >>= fun _ => (pure () : Matcher Unit)).Consumes
      fun part _ => ∃ closing, part = [closing] ∧ isQuote closing = true := by
    refine (consumes_char isQuote).bind_pure (fun _ => ()) ?_
    rintro _ closing ⟨rfl, hclosing⟩
    exact ⟨closing, rfl, hclosing⟩
  have hsubpath : (subpath >>= fun _ => char isQuote >>= fun _ =>
      (pure () : Matcher Unit)).Consumes fun part _ => ∃ text closing, part = text ++ [closing] ∧
        IsSubpath text ∧ isQuote closing = true := by
    refine consumes_subpath.bind (fun _ => hclosing) ?_
    rintro text _ back _ htext ⟨closing, rfl, hclosing⟩
    exact ⟨text, closing, rfl, htext, hclosing⟩
  have hname : (literal package >>= fun _ => subpath >>= fun _ => char isQuote >>= fun _ =>
      (pure () : Matcher Unit)).Consumes fun part _ => ∃ text closing,
        part = package.toList ++ (text ++ [closing]) ∧ IsSubpath text ∧ isQuote closing = true := by
    refine (consumes_literal package).bind (fun _ => hsubpath) ?_
    rintro name _ back _ rfl ⟨text, closing, rfl, htext, hclosing⟩
    exact ⟨text, closing, rfl, htext, hclosing⟩
  have hquoted : (char isQuote >>= fun _ => literal package >>= fun _ => subpath >>= fun _ =>
      char isQuote >>= fun _ => (pure () : Matcher Unit)).Consumes
        fun part _ => IsQuotedName package.toList part := by
    refine (consumes_char isQuote).bind (fun _ => hname) ?_
    rintro front opening back _ ⟨rfl, hopening⟩ ⟨text, closing, rfl, htext, hclosing⟩
    exact ⟨opening, package.toList ++ text, closing, by simp, hopening, hclosing,
      htext.isWithin _, fun h => unquoted_append.mpr ⟨h, htext.unquoted⟩⟩
  exact consumes_importStart.bind (fun _ => hquoted)
    fun front _ quoted _ hfront hquoted => ⟨front, quoted, rfl, hfront, hquoted⟩

/-! ## 3. Clauses -/

theorem any_isBlank_head? {gap : List Char} (hgap : isBlankText gap = true) (hne : gap ≠ [])
    (rest : List Char) : (gap ++ rest).head?.any isBlank = true := by
  cases gap with
  | nil => exact absurd rfl hne
  | cons c gap => exact List.all_eq_true.mp hgap c List.mem_cons_self

theorem isBlankText_reverse (text : List Char) : isBlankText text.reverse = isBlankText text :=
  List.all_reverse

/-- Whether blanks and the word `from` stand around a clause is seen from the ends of the text. -/
theorem isClause_append {gap before after : List Char} (hgap : isBlankText gap = true)
    (hgapNe : gap ≠ []) (hbefore : isBlankText before = true) (hbeforeNe : before ≠ [])
    (hafter : isBlankText after = true) (hafterNe : after ≠ []) (clause : List Char) :
    isClause (gap ++ (clause ++ (before ++ ("from".toList ++ after)))) = true := by
  have hreverse : (gap ++ (clause ++ (before ++ ("from".toList ++ after)))).reverse =
      after.reverse ++ ("morf".toList ++ (before.reverse ++ (clause.reverse ++ gap.reverse))) := by
    simp
  have hafter' : isBlankText after.reverse = true := by rwa [isBlankText_reverse]
  have hdrop : (after.reverse ++ ("morf".toList ++
      (before.reverse ++ (clause.reverse ++ gap.reverse)))).dropWhile isBlank =
        "morf".toList ++ (before.reverse ++ (clause.reverse ++ gap.reverse)) := by
    rw [List.dropWhile_append_of_pos (List.all_eq_true.mp hafter')]
    rfl
  have hfront : ("morf".toList ++ (before.reverse ++ (clause.reverse ++ gap.reverse))).drop 4 =
      before.reverse ++ (clause.reverse ++ gap.reverse) := rfl
  have hlength : 2 ≤ (before.reverse ++ (clause.reverse ++ gap.reverse)).length := by
    have := List.length_pos_iff.mpr hgapNe
    have := List.length_pos_iff.mpr hbeforeNe
    simp only [List.length_append, List.length_reverse]
    omega
  simp only [isClause, hreverse, hdrop, hfront]
  rw [any_isBlank_head? hafter' (by simpa using hafterNe),
    any_isBlank_head? (by rwa [isBlankText_reverse]) (by simpa using hbeforeNe),
    any_isBlank_head? hgap hgapNe, decide_eq_true hlength]
  rfl

-- Behind the opening parenthesis of a call no clause ends.
theorem isClause_call {inner : List Char} (hinner : isBlankText inner = true)
    (front : List Char) : isClause (front ++ '(' :: inner) = false := by
  have hreverse : (front ++ '(' :: inner).reverse = inner.reverse ++ '(' :: front.reverse := by
    simp
  have hdrop : (inner.reverse ++ '(' :: front.reverse).dropWhile isBlank =
      '(' :: front.reverse := by
    rw [← isBlankText_reverse] at hinner
    rw [List.dropWhile_append_of_pos (List.all_eq_true.mp hinner)]
    rfl
  simp only [isClause, hreverse, hdrop]
  simp

/-! ## 4. What is found -/

variable {cursor : Cursor} {rest : List Char} {opening : Char}

/-- What stands between a keyword and the quote is read as a whole, and is what decides. -/
theorem keywordThen_eq {keyword : String} {between : List Char} (holds : List Char → Bool)
    (hbetween : ∀ c ∈ between, isQuote c = false ∧ c ≠ ';') (hne : between ≠ [])
    (hopening : isQuote opening = true) (hboundary : cursor.isWordBoundary = true)
    (hcursor : cursor.rest = keyword.toList ++ (between ++ opening :: rest)) :
    keywordThen keyword holds cursor =
      if holds between then some ((), cursor.behind (keyword.toList ++ between)) else none := by
  have hrun : (run 1 fun c => !isQuote c && c != ';').Reads between (opening :: rest) between := by
    refine reads_run (List.length_pos_iff.mpr hne) ?_ ?_
    · rw [List.all_eq_true]
      intro c hc
      simp [hbetween c hc]
    · intro c hc
      obtain rfl := Option.some.inj hc
      simp [hopening]
  refine (assert_bind hboundary _).trans ?_
  by_cases hholds : holds between = true
  · have hread : (literal keyword >>= fun _ => (run 1 fun c => !isQuote c && c != ';') >>=
        fun between => assert fun _ => holds between).Reads
          (keyword.toList ++ (between ++ [])) (opening :: rest) () :=
      (reads_literal keyword _).bind (hrun.bind (reads_assert (fun _ => hholds) _))
    rw [List.append_nil] at hread
    rw [if_pos hholds]
    exact hread cursor (by rw [hcursor, List.append_assoc])
  · have hfails : (literal keyword >>= fun _ => (run 1 fun c => !isQuote c && c != ';') >>=
        fun between => assert fun _ => holds between).Fails
          (keyword.toList ++ (between ++ opening :: rest)) :=
      (reads_literal keyword _).bind_fails
        (hrun.bind_fails (fails_assert (fun _ => by simpa using hholds) _))
    rw [if_neg hholds]
    exact hfails cursor hcursor

theorem keywordThen_eq_none {keyword : String} (h : ¬ keyword.toList <+: cursor.rest)
    (holds : List Char → Bool) : keywordThen keyword holds cursor = none :=
  fails_assert_bind _ ((fails_literal h).bind _) cursor rfl

theorem callOf_eq_none {name : String} (h : ¬ name.toList <+: cursor.rest) :
    callOf name cursor = none :=
  fails_assert_bind _ ((fails_literal h).bind _) cursor rfl

theorem callOf_eq {name : String} {gap inner : List Char} (hgap : isBlankText gap = true)
    (hinner : isBlankText inner = true) (hopening : isQuote opening = true)
    (hboundary : cursor.isWordBoundary = true)
    (hcursor : cursor.rest = name.toList ++ (gap ++ '(' :: inner) ++ opening :: rest) :
    callOf name cursor = some ((), cursor.behind (name.toList ++ (gap ++ '(' :: inner))) := by
  have hinnerRead : blanks.Reads inner (opening :: rest) inner := by
    refine reads_run (Nat.zero_le _) hinner fun c hc => ?_
    obtain rfl := Option.some.inj hc
    exact Imports.isBlank_of_isQuote hopening
  have hparenthesis : (literal "(" >>= fun _ => blanks >>= fun _ => (pure () : Matcher Unit)).Reads
      ('(' :: inner) (opening :: rest) () :=
    (reads_literal "(" _).bind (hinnerRead.bind_pure fun _ => ())
  have hgapRead : blanks.Reads gap ('(' :: inner ++ opening :: rest) gap := by
    refine reads_run (Nat.zero_le _) hgap fun c hc => ?_
    obtain rfl := Option.some.inj hc
    rfl
  have hread : (literal name >>= fun _ => blanks >>= fun _ => literal "(" >>= fun _ =>
      blanks >>= fun _ => (pure () : Matcher Unit)).Reads
        (name.toList ++ (gap ++ '(' :: inner)) (opening :: rest) () :=
    (reads_literal name _).bind (hgapRead.bind hparenthesis)
  exact (assert_bind hboundary _).trans (hread cursor hcursor)

theorem chars_of_isBlankText {text : List Char} (h : isBlankText text = true) :
    ∀ c ∈ text, isQuote c = false ∧ c ≠ ';' := by
  intro c hc
  have hblank := List.all_eq_true.mp h c hc
  refine ⟨Imports.isQuote_of_isBlank hblank, ?_⟩
  rintro rfl
  exact absurd hblank (by decide)

theorem not_prefix_of_ne {c d : Char} {start back : List Char} (h : c ≠ d) :
    ¬ c :: start <+: d :: back :=
  fun hprefix => h (List.cons_prefix_cons.mp hprefix).1

/-- Each way to write an import is read up to the quote behind it. -/
theorem importStart_eq {lead : List Char} (hlead : IsLead lead) (hopening : isQuote opening = true)
    (hboundary : cursor.isWordBoundary = true) (hcursor : cursor.rest = lead ++ opening :: rest) :
    importStart cursor = some ((), cursor.behind lead) := by
  unfold importStart
  cases hlead with
  | @bare gap hgap hgapNe =>
    refine anyOf_cons_of_some ?_ _
    rw [keywordThen_eq _ (chars_of_isBlankText hgap) hgapNe hopening hboundary
      (by rw [hcursor, List.append_assoc]), hgap]
    rfl
  | @call name gap inner hname hgap hinner =>
    have hcall := callOf_eq hgap hinner hopening hboundary hcursor
    simp only [List.mem_cons, List.not_mem_nil, or_false] at hname
    rcases hname with rfl | rfl
    · rw [anyOf_cons_of_none (keywordThen_eq_none (hcursor ▸ not_prefix_of_ne (by decide)) _),
        anyOf_cons_of_none (keywordThen_eq_none (hcursor ▸ not_prefix_of_ne (by decide)) _)]
      exact anyOf_cons_of_some hcall _
    · -- the keyword could begin a clause, but the parenthesis ends none
      have hchars : ∀ c ∈ gap ++ '(' :: inner, isQuote c = false ∧ c ≠ ';' := by
        simp only [List.forall_mem_append, List.forall_mem_cons]
        exact ⟨chars_of_isBlankText hgap, by decide, chars_of_isBlankText hinner⟩
      have hnone : keywordThen "import" (fun between => isBlankText between || isClause between)
          cursor = none := by
        have hblank : isBlankText (gap ++ '(' :: inner) = false := by
          simp [isBlankText, isBlank]
        rw [keywordThen_eq _ hchars (by simp) hopening hboundary
          (by rw [hcursor, List.append_assoc]), hblank, isClause_call hinner]
        rfl
      rw [anyOf_cons_of_none hnone,
        anyOf_cons_of_none (keywordThen_eq_none (hcursor ▸ not_prefix_of_ne (by decide)) _),
        anyOf_cons_of_none (callOf_eq_none (hcursor ▸ not_prefix_of_ne (by decide)))]
      exact anyOf_cons_of_some hcall _
  | @clause keyword gap clause before after hkeyword hgap hgapNe hclause hbefore hbeforeNe hafter
      hafterNe =>
    have hchars : ∀ c ∈ gap ++ (clause ++ (before ++ ("from".toList ++ after))),
        isQuote c = false ∧ c ≠ ';' := by
      have hfrom : ∀ c ∈ "from".toList, isQuote c = false ∧ c ≠ ';' := by simp [isQuote]
      simp only [List.forall_mem_append]
      exact ⟨chars_of_isBlankText hgap, hclause, chars_of_isBlankText hbefore, hfrom,
        chars_of_isBlankText hafter⟩
    have hisClause := isClause_append hgap hgapNe hbefore hbeforeNe hafter hafterNe clause
    have hcursor' : cursor.rest = keyword.toList ++
        (gap ++ (clause ++ (before ++ ("from".toList ++ after))) ++ opening :: rest) := by
      rw [hcursor, List.append_assoc]
    have hread (holds : List Char → Bool) :=
      keywordThen_eq holds hchars (by simp [hgapNe]) hopening hboundary hcursor'
    simp only [List.mem_cons, List.not_mem_nil, or_false] at hkeyword
    rcases hkeyword with rfl | rfl
    · refine anyOf_cons_of_some ?_ _
      rw [hread, hisClause, Bool.or_true]
      rfl
    · rw [anyOf_cons_of_none (keywordThen_eq_none (hcursor ▸ not_prefix_of_ne (by decide)) _)]
      refine anyOf_cons_of_some ?_ _
      rw [hread, hisClause]
      rfl

theorem IsSubpath.exists_reads {text : List Char} (h : IsSubpath text) {closing : Char}
    (hclosing : isQuote closing = true) (rest : List Char) :
    ∃ found, subpath.Reads text (closing :: rest) found := by
  rcases h with rfl | ⟨c, text, rfl, hc, htext⟩
  · refine ⟨none, Fails.optional (Fails.bind (fails_char fun c hc => ?_) _)⟩
    obtain rfl := Option.some.inj hc
    have hclosing' : isQuote '/' = false ∧ isQuote '.' = false := by decide
    simp only [Bool.or_eq_false_iff, beq_eq_false_iff_ne]
    constructor
    · rintro rfl
      simp [hclosing'.1] at hclosing
    · rintro rfl
      simp [hclosing'.2] at hclosing
  · have hrun : (run 0 fun c => !isQuote c).Reads text (closing :: rest) text := by
      refine reads_run (Nat.zero_le _) ?_ fun c hc => ?_
      · rw [List.all_eq_true]
        intro c hc
        simp [htext c hc]
      · obtain rfl := Option.some.inj hc
        simp [hclosing]
    have hsign : (c == '/' || c == '.') = true := by simpa using hc
    exact ⟨some text, Reads.optional (Reads.bind (reads_char hsign _) hrun)⟩

theorem IsWithin.exists_subpath {package target : List Char} (h : IsWithin package target)
    (hunquoted : Unquoted target) : ∃ text, target = package ++ text ∧ IsSubpath text := by
  rcases h with rfl | ⟨rest, rfl | rfl⟩
  · exact ⟨[], (List.append_nil _).symm, .inl rfl⟩
  · have hrest := (List.forall_mem_cons.mp (unquoted_append.mp hunquoted).2).2
    exact ⟨'/' :: rest, rfl, .inr ⟨'/', rest, rfl, .inl rfl, hrest⟩⟩
  · have hrest := (List.forall_mem_cons.mp (unquoted_append.mp hunquoted).2).2
    exact ⟨'.' :: rest, rfl, .inr ⟨'.', rest, rfl, .inr rfl, hrest⟩⟩

theorem reads_quotedName {package : String} {target : List Char} {closing : Char}
    (hopening : isQuote opening = true) (htarget : IsWithin package.toList target)
    (hunquoted : Unquoted target) (hclosing : isQuote closing = true) (rest : List Char) :
    (char isQuote >>= fun _ => literal package >>= fun _ => subpath >>= fun _ =>
      char isQuote >>= fun _ => (pure () : Matcher Unit)).Reads
        (opening :: (target ++ [closing])) rest () := by
  obtain ⟨text, rfl, htext⟩ := htarget.exists_subpath hunquoted
  obtain ⟨found, hsubpath⟩ := htext.exists_reads hclosing rest
  have hlast : (char isQuote >>= fun _ => (pure () : Matcher Unit)).Reads [closing] rest () :=
    (reads_char hclosing rest).bind_pure fun _ => ()
  have hname : (literal package >>= fun _ => subpath >>= fun _ => char isQuote >>= fun _ =>
      (pure () : Matcher Unit)).Reads (package.toList ++ (text ++ [closing])) rest () :=
    (reads_literal package _).bind (hsubpath.bind hlast)
  rw [List.append_assoc]
  exact (reads_char hopening _).bind hname

/-- An import is seen wherever it stands behind a word boundary. -/
theorem isSome_find?_importOf {package : String} {content before lead target after : List Char}
    {closing : Char}
    (hcontent : content = before ++ (lead ++ opening :: (target ++ closing :: after)))
    (hboundary : ((Cursor.ofText content).behind before).isWordBoundary = true)
    (hlead : IsLead lead) (hopening : isQuote opening = true)
    (htarget : IsWithin package.toList target) (hunquoted : Unquoted target)
    (hclosing : isQuote closing = true) :
    ((importOf package).find? content).isSome = true := by
  have hrest : ((Cursor.ofText content).behind before).rest =
      lead ++ opening :: (target ++ closing :: after) := Cursor.rest_behind hcontent
  have hstart := importStart_eq hlead hopening hboundary hrest
  have hname := reads_quotedName hopening htarget hunquoted hclosing after
    (((Cursor.ofText content).behind before).behind lead) (by
      rw [Cursor.rest_behind hrest]
      simp)
  refine isSome_find? (hcontent ▸ List.prefix_append before _) ?_
  change ((importStart _).bind fun read => (char isQuote >>= fun _ => literal package >>= fun _ =>
    subpath >>= fun _ => char isQuote >>= fun _ => (pure () : Matcher Unit)) read.2).isSome = true
  rw [hstart, Option.bind_some, hname]
  rfl

/-- What the check for a package matches has two quotes, the second at its end, and between them
the name of a module in the package.  Every such name that stands behind one of the ways to write an
import, at a word boundary, makes the check match. -/
theorem importOf_exact {package : String} (hpackage : Unquoted package.toList)
    (content : List Char) :
    (∀ hit ∈ (importOf package).findAll content, ∃ front opening target closing,
      hit.text = front ++ opening :: (target ++ [closing]) ∧ Unquoted front ∧ Unquoted target ∧
      isQuote opening = true ∧ isQuote closing = true ∧ IsWithin package.toList target) ∧
    ∀ before lead opening target closing after,
      content = before ++ (lead ++ opening :: (target ++ closing :: after)) →
      ((Cursor.ofText content).behind before).isWordBoundary = true → IsLead lead →
      isQuote opening = true → isQuote closing = true → Unquoted target →
      IsWithin package.toList target → ((importOf package).find? content).isSome = true := by
  constructor
  · intro hit hhit
    obtain ⟨front, quoted, htext, hfront, hquoted⟩ :=
      (consumes_importOf package).text (matcher_of_mem_findAll hhit)
    obtain ⟨opening, target, closing, rfl, hopening, hclosing, htarget, hunquoted⟩ := hquoted
    exact ⟨front, opening, target, closing, htext, hfront, hunquoted hpackage, hopening, hclosing,
      htarget⟩
  · intro before lead opening target closing after hcontent hboundary hlead hopening hclosing
      hunquoted htarget
    exact isSome_find?_importOf hcontent hboundary hlead hopening htarget hunquoted hclosing

/-- A part of a package, whose name has a sign in it, is exported over three lines. -/
def sampleExport : List Char :=
  "x();\nexport \x7b\n  c\n\x7d from \"a+b/d\";".toList

theorem importOf_exact_sampleExport : Unquoted "a+b".toList ∧
    (∀ hit ∈ (importOf "a+b").findAll sampleExport, ∃ front opening target closing,
      hit.text = front ++ opening :: (target ++ [closing]) ∧ Unquoted front ∧ Unquoted target ∧
      isQuote opening = true ∧ isQuote closing = true ∧ IsWithin "a+b".toList target) ∧
    ((importOf "a+b").find? sampleExport).isSome = true := by
  have hpackage : Unquoted "a+b".toList := by decide
  obtain ⟨hmatches, hfound⟩ := importOf_exact hpackage sampleExport
  have hlead : IsLead ("export".toList ++ ([' '] ++ ("\x7b\n  c\n\x7d".toList ++ ([' '] ++
      ("from".toList ++ [' ']))))) := by
    refine .clause (by decide) (by decide) (by decide) ?_ (by decide) (by decide) (by decide)
      (by decide)
    simp [isQuote]
  refine ⟨hpackage, hmatches, hfound "x();\n".toList _ '"' "a+b/d".toList '"' [';'] rfl ?_ hlead rfl
    rfl (by decide) (.inr ⟨['d'], .inl rfl⟩)⟩
  decide

-- A longer name that begins with that of the package is another package.
example : ((importOf "moment").find? "import tz from 'moment-timezone'".toList).isSome = false := by
  decide +kernel

end Scrutiny.Rules
