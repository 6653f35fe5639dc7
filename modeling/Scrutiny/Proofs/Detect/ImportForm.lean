import Scrutiny.Proofs.Detect.ImportClause
import Scrutiny.Proofs.Text.Matcher

/-!
How an import statement is written, and that it is read as it is meant.
-/

namespace Scrutiny.Imports

open Text Matcher

/-! ## 1. Statements as they are written -/

def isQuote (c : Char) : Bool :=
  c == '\'' || c == '"'

/-- What stands between the keyword and the source of an import that binds names: maybe `type` and
the blanks behind it, the clause, and `from` with blanks around. -/
structure Binding where
  mark : Option (List Char)
  clause : Clause
  before : List Char
  after : List Char

namespace Binding

def markText (binding : Binding) : List Char :=
  match binding.mark with
  | none => []
  | some gap => "type".toList ++ gap

def text (binding : Binding) : List Char :=
  binding.markText ++ (binding.clause.text ++ (binding.before ++ ("from".toList ++ binding.after)))

def names (binding : Binding) : List ImportedName :=
  binding.clause.names binding.mark.isSome

/-- A default name `type` is taken for the mark if blanks stand behind it, unless a single one
stands between it and `from`. -/
def MistakesName (binding : Binding) : Prop :=
  binding.mark = none ∧
    match binding.clause with
    | .default name => name = "type".toList ∧ binding.before.length ≠ 1
    | .group _ => False
    | .both name before _ _ => name = "type".toList ∧ before ≠ []

structure WellFormed (binding : Binding) : Prop where
  mark : ∀ gap ∈ binding.mark, isBlankText gap = true ∧ gap ≠ []
  clause : binding.clause.WellFormed
  before : isBlankText binding.before = true
  before_ne_nil : binding.before ≠ []
  after : isBlankText binding.after = true

end Binding

/-- An import statement as it is written. -/
structure Written where
  indent : List Char
  gap : List Char
  binding : Option Binding
  opening : Char
  source : List Char
  closing : Char
  ending : List Char

namespace Written

variable {written : Written}

/-- What stands between the keyword and the source. -/
def middle (written : Written) : List Char :=
  match written.binding with
  | none => written.gap
  | some binding => written.gap ++ binding.text

def quoted (written : Written) : List Char :=
  written.opening :: written.source ++ [written.closing]

def text (written : Written) : List Char :=
  written.indent ++ ("import".toList ++ (written.middle ++ (written.quoted ++ written.ending)))

def names (written : Written) : List ImportedName :=
  match written.binding with
  | none => []
  | some binding => binding.names

/-- The statement is written as it should be, in lines that are not too many. -/
structure WellFormed (written : Written) : Prop where
  indent : isBlankText written.indent = true
  newline_not_mem_indent : '\n' ∉ written.indent
  gap : isBlankText written.gap = true
  newline_not_mem_gap : '\n' ∉ written.gap
  gap_ne_nil : written.binding ≠ none → written.gap ≠ []
  binding : ∀ binding ∈ written.binding, binding.WellFormed
  opening : isQuote written.opening = true
  source_ne_nil : written.source ≠ []
  source : ∀ c ∈ written.source, isQuote c = false ∧ c ≠ '\n'
  closing : isQuote written.closing = true
  ending : ∀ c ∈ written.ending, isQuote c = false ∧ c ≠ '\n'
  length_rows : (pieces written.text).length ≤ mostLines

end Written

/-! ## 2. The source -/

theorem reads_quotedSource {opening closing : Char} {source : List Char}
    (hopening : isQuote opening = true) (hne : source ≠ [])
    (hsource : ∀ c ∈ source, isQuote c = false) (hclosing : isQuote closing = true)
    (rest : List Char) :
    quotedSource.Reads (opening :: source ++ [closing]) rest source := by
  have hrun : (run 1 fun c => c != '\'' && c != '"').Reads source ([closing] ++ rest) source := by
    refine reads_run (List.length_pos_iff.mpr hne) ?_ ?_
    · rw [List.all_eq_true]
      intro c hc
      simpa [isQuote] using hsource c hc
    · intro c hc
      obtain rfl := Option.some.inj hc
      rw [isQuote, Bool.or_eq_true, beq_iff_eq, beq_iff_eq] at hclosing
      rcases hclosing with rfl | rfl <;> rfl
  have hlast : (quoteMark >>= fun _ => (pure source : Matcher (List Char))).Reads
      ([closing] ++ []) rest source :=
    (reads_char hclosing ([] ++ rest)).bind (reads_pure source rest)
  have hback : (run 1 (fun c => c != '\'' && c != '"') >>= fun source => quoteMark >>= fun _ =>
      (pure source : Matcher (List Char))).Reads (source ++ ([closing] ++ [])) rest source :=
    hrun.bind hlast
  have hall : quotedSource.Reads ([opening] ++ (source ++ ([closing] ++ []))) rest source :=
    (reads_char hopening _).bind hback
  exact hall

theorem needs_quotedSource : quotedSource.Needs isQuote 2 := by
  have hlast (source : List Char) :
      (quoteMark >>= fun _ => (pure source : Matcher (List Char))).Needs isQuote 1 :=
    needs_char_bind fun _ _ _ _ => Nat.zero_le _
  exact needs_char_bind fun _ => Needs.bind ((takes_run 1 _).mono (Nat.zero_le 1)) hlast

theorem needs_fromSource : fromSource.Needs isQuote 2 :=
  Needs.bind (takes_assert _) fun _ =>
    Needs.bind ((takes_literal "from").mono (Nat.zero_le _)) fun _ =>
      Needs.bind (takes_run 0 _) fun _ => needs_quotedSource

theorem needs_clauseThenSource : clauseThenSource.Needs isQuote 2 := by
  refine Needs.bind ((takes_run 1 _).mono (Nat.zero_le 1)) fun gap => Needs.either ?_ ?_
  · exact Needs.bind ((takes_char _).mono (Nat.zero_le 1)) fun _ =>
      needs_fromSource.upTo.andThen _
  · exact Needs.bind (takes_assert _) fun _ => needs_fromSource.andThen _

theorem needs_clauseImport : clauseImport.Needs isQuote 2 := by
  refine Needs.either ?_ (needs_clauseThenSource.andThen _)
  exact Needs.bind ((takes_run 1 _).mono (Nat.zero_le 1)) fun _ =>
    Needs.bind ((takes_literal "type").mono (Nat.zero_le _)) fun _ =>
      needs_clauseThenSource.andThen _

/-- No statement is read where there are no two quotes. -/
theorem needs_statement : statement.Needs isQuote 2 := by
  have hkeyword : importKeyword.Takes 0 :=
    (takes_run 0 _).bind fun _ => (takes_literal "import").mono (Nat.zero_le _)
  refine Needs.bind hkeyword fun _ => Needs.either (needs_clauseImport.andThen _) ?_
  have hbare : bareImport.Needs isQuote 2 :=
    Needs.bind (takes_run 0 _) fun _ => needs_quotedSource
  exact hbare.andThen _

/-! ## 3. The word before the source -/

/-- `from`, blanks and a quoted source are read behind a blank. -/
theorem fromSource_eq {after quoted rest source : List Char} (hafter : isBlankText after = true)
    (hstart : SolidStart quoted) (hquoted : quotedSource.Reads quoted rest source)
    {cursor : Cursor} (hcursor : cursor.rest = "from".toList ++ after ++ quoted ++ rest)
    {blank : Char} (hblank : isBlank blank = true) (hprevious : cursor.previous = some blank) :
    fromSource cursor = some (source, cursor.behind ("from".toList ++ after ++ quoted)) := by
  have hboundary : cursor.isWordBoundary = true := by
    rw [Cursor.isWordBoundary, hprevious, hcursor, Option.any_some, isWordChar_of_isBlank hblank]
    rfl
  have hblanks : blanks.Reads after (quoted ++ rest) after := by
    refine reads_run (Nat.zero_le _) hafter fun c hc => ?_
    obtain ⟨d, hd, hsolid⟩ := hstart.append rest
    obtain rfl := Option.some.inj (hc.symm.trans hd)
    exact hsolid
  have hread : (literal "from" >>= fun _ => blanks >>= fun _ => quotedSource).Reads
      ("from".toList ++ (after ++ quoted)) rest source := by
    refine Reads.bind (reads_literal "from" _) ?_
    exact Reads.bind hblanks hquoted
  rw [← List.append_assoc] at hread
  change (assert Cursor.isWordBoundary cursor).bind (fun read =>
    (literal "from" >>= fun _ => blanks >>= fun _ => quotedSource) read.2) = _
  rw [assert, if_pos hboundary]
  exact hread cursor hcursor

theorem isQuote_of_isBlank {c : Char} (h : isBlank c = true) : isQuote c = false := by
  cases hquote : isQuote c with
  | false => rfl
  | true =>
    rw [isQuote, Bool.or_eq_true, beq_iff_eq, beq_iff_eq] at hquote
    rcases hquote with rfl | rfl <;> exact absurd h (by decide)

theorem isBlank_of_isQuote {c : Char} (h : isQuote c = true) : isBlank c = false := by
  cases hblank : isBlank c with
  | false => rfl
  | true => rw [isQuote_of_isBlank hblank] at h; exact absurd h Bool.false_ne_true

theorem isQuote_of_mem_from {after : List Char} (hafter : isBlankText after = true) {c : Char}
    (hc : c ∈ "from".toList ++ after) : isQuote c = false := by
  rcases List.mem_append.mp hc with hc | hc
  · have hletters : "from".toList.all (fun d => !isQuote d) = true := by decide
    simpa using List.all_eq_true.mp hletters c hc
  · exact isQuote_of_isBlank (List.all_eq_true.mp hafter c hc)

-- The part of a text before its first quote.
theorem takeWhile_front {front rest : List Char} (hfront : ∀ c ∈ front, isQuote c = false)
    (hrest : ∀ c ∈ rest.head?, isQuote c = true) :
    (front ++ rest).takeWhile (fun c => !isQuote c) = front := by
  rw [List.takeWhile_append_of_pos fun c hc => by simp [hfront c hc]]
  cases rest with
  | nil => simp
  | cons c rest => simp [hrest c rfl]

-- Up to its first quote a text that is read is the word and blanks.
theorem fails_fromSource {front rest : List Char} (hfront : ∀ c ∈ front, isQuote c = false)
    (hlength : (trimEnd front).length ≠ 4) (hrest : ∀ c ∈ rest.head?, isQuote c = true) :
    fromSource.Fails (front ++ rest) := by
  refine fails_assert_bind _ ?_
  by_cases hword : "from".toList <+: front ++ rest
  · obtain ⟨back, hback⟩ := hword
    have hgap : back.takeWhile isBlank ++ back.dropWhile isBlank = back :=
      List.takeWhile_append_dropWhile
    have hblank : isBlankText (back.takeWhile isBlank) = true := List.all_takeWhile
    have hsolid : ∀ c ∈ (back.dropWhile isBlank).head?, isBlank c = false := by
      intro c hc
      have hhead := List.head?_dropWhile_not isBlank back
      rw [Option.mem_def.mp hc] at hhead
      exact hhead
    rw [← hback]
    refine (reads_literal "from" back).bind_fails ?_
    rw [← hgap]
    refine (reads_run (Nat.zero_le _) hblank hsolid).bind_fails ?_
    refine (fails_char fun c hc => ?_).bind _
    change isQuote c = false
    by_contra hquote
    -- Otherwise the front part would be the word and the blanks.
    have hall : ∀ d ∈ "from".toList ++ back.takeWhile isBlank, isQuote d = false :=
      fun d hd => isQuote_of_mem_from hblank hd
    have hnext : ∀ d ∈ (back.dropWhile isBlank).head?, isQuote d = true := by
      intro d hd
      obtain rfl := Option.some.inj ((Option.mem_def.mp hc).symm.trans hd)
      simpa using hquote
    have hfrontEq : front = "from".toList ++ back.takeWhile isBlank := by
      rw [← takeWhile_front hfront hrest, ← hback, ← takeWhile_front hall hnext, List.append_assoc,
        hgap]
    rw [hfrontEq, trimEnd_append, if_pos hblank] at hlength
    exact hlength rfl
  · exact (fails_literal hword).bind _

/-! ## 4. The clause before it -/

/-- The text of a clause, as far as finding its end goes. -/
structure IsClauseText (text : List Char) : Prop where
  solidStart : SolidStart text
  solidEnd : SolidEnd text
  isQuote : ∀ c ∈ text, isQuote c = false

variable {gap clause before after quoted rest source : List Char}

theorem reads_someBlanks (hgap : isBlankText gap = true) (hne : gap ≠ []) {rest : List Char}
    (hrest : ∀ c ∈ rest.head?, isBlank c = false) : someBlanks.Reads gap rest gap :=
  reads_run (List.length_pos_iff.mpr hne) hgap hrest

-- Too much stands before the word for a source to be read there.
theorem fails_fromSource_of_skipped {skipped : List Char} (hne : skipped ≠ [])
    (hskipped : ∀ c ∈ skipped, isQuote c = false) (hafter : isBlankText after = true)
    (hrest : ∀ c ∈ rest.head?, isQuote c = true) :
    fromSource.Fails (skipped ++ ("from".toList ++ after) ++ rest) := by
  have hquotes : ∀ c ∈ skipped ++ ("from".toList ++ after), isQuote c = false := by
    intro c hc
    rcases List.mem_append.mp hc with hc | hc
    · exact hskipped c hc
    · exact isQuote_of_mem_from hafter hc
  have hlength : (trimEnd (skipped ++ ("from".toList ++ after))).length ≠ 4 := by
    have hend : SolidEnd (skipped ++ "from".toList) := SolidEnd.append ⟨'m', rfl, rfl⟩ skipped
    have hfrom : "from".toList.length = 4 := rfl
    have hpos := List.length_pos_iff.mpr hne
    rw [← List.append_assoc, trimEnd_append, if_pos hafter, hend.trimEnd, List.length_append, hfrom]
    omega
  exact fails_fromSource hquotes hlength hrest

/-- What stands before the word and the source is skipped. -/
theorem reads_upTo_fromSource {skipped : List Char} {blank : Char}
    (hskipped : ∀ c ∈ skipped, isQuote c = false) (hlast : skipped.getLast? = some blank)
    (hblank : isBlank blank = true) (hafter : isBlankText after = true)
    (hstart : ∃ c, quoted.head? = some c ∧ isQuote c = true)
    (hquoted : quotedSource.Reads quoted rest source) :
    fromSource.upTo.Reads (skipped ++ ("from".toList ++ after ++ quoted)) rest
      (skipped, source) := by
  obtain ⟨opening, hopening, hquote⟩ := hstart
  refine reads_upTo (fun front d back hsplit => ?_) fun cursor hcursor hprevious => ?_
  · have hnext : ∀ c ∈ (quoted ++ rest).head?, isQuote c = true := by
      intro c hc
      rw [List.head?_append, hopening] at hc
      obtain rfl := Option.some.inj hc
      exact hquote
    have hfails := fails_fromSource_of_skipped (List.cons_ne_nil d back)
      (fun c hc => hskipped c (hsplit ▸ List.mem_append_right front hc)) hafter hnext
    simpa only [List.append_assoc] using hfails
  · have hsolid : SolidStart quoted := ⟨opening, hopening, isBlank_of_isQuote hquote⟩
    refine fromSource_eq hafter hsolid hquoted hcursor hblank (hprevious _ ?_)
    rw [hlast]
    rfl

/-- The clause goes up to the word before the source. -/
theorem reads_clauseThenSource (hgap : isBlankText gap = true) (hgapNe : gap ≠ [])
    (hclause : IsClauseText clause) (hbefore : isBlankText before = true)
    (hbeforeNe : before ≠ []) (hafter : isBlankText after = true)
    (hstart : ∃ c, quoted.head? = some c ∧ isQuote c = true)
    (hquoted : quotedSource.Reads quoted rest source) :
    clauseThenSource.Reads (gap ++ (clause ++ (before ++ ("from".toList ++ after ++ quoted)))) rest
      (clause, source) := by
  obtain ⟨first, hfirst, -⟩ := hclause.solidStart
  cases clause with
  | nil => exact absurd hfirst (by simp)
  | cons c tail =>
    have hskipped : ∀ d ∈ tail ++ before, isQuote d = false := by
      intro d hd
      rcases List.mem_append.mp hd with hd | hd
      · exact hclause.isQuote d (List.mem_cons_of_mem c hd)
      · exact isQuote_of_isBlank (List.all_eq_true.mp hbefore d hd)
    have hlast : (tail ++ before).getLast? = some (before.getLast hbeforeNe) := by
      rw [List.getLast?_append, List.getLast?_eq_some_getLast hbeforeNe]
      rfl
    have hupTo := reads_upTo_fromSource hskipped hlast
      (List.all_eq_true.mp hbefore _ (List.getLast_mem hbeforeNe)) hafter hstart hquoted
    have hread : (char (fun _ => true) >>= fun first => fromSource.upTo >>= fun found =>
        (pure (first :: trimEnd found.1, found.2) : Matcher (List Char × List Char))).Reads
          ([c] ++ ((tail ++ before) ++ ("from".toList ++ after ++ quoted) ++ [])) rest
            (c :: trimEnd (tail ++ before), source) :=
      (reads_char rfl _).bind (Reads.bind (by rw [List.nil_append]; exact hupTo) (reads_pure _ _))
    have hsolidGap : ∀ e ∈ (c :: tail ++ (before ++ ("from".toList ++ after ++ quoted)) ++
        rest).head?, isBlank e = false := by
      intro e he
      exact SolidStart.isBlank_of_mem_head? ((hclause.solidStart.append _).append _) e he
    rw [trimEnd_tail_append hclause.solidEnd hbefore, List.append_nil] at hread
    have hleft := hread.either_left (assert (fun _ => 2 ≤ gap.length) >>= fun _ =>
      fromSource >>= fun source => pure (gap.getLast?.toList, source))
    refine Reads.bind (reads_someBlanks hgap hgapNe hsolidGap) ?_
    simpa only [List.append_assoc, List.cons_append, List.nil_append] using hleft

/-! ## 5. What is no clause -/

theorem fails_fromSource_of_quote {opening : Char} (hopening : isQuote opening = true)
    (tail : List Char) : fromSource.Fails (opening :: tail) := by
  have hempty : ∀ c ∈ ([] : List Char), isQuote c = false := by simp
  refine fails_fromSource hempty (by decide) fun c hc => ?_
  obtain rfl := Option.some.inj hc
  exact hopening

theorem length_trimEnd_of_suffix {text back : List Char} (h : back <:+ text) :
    (trimEnd back).length ≤ (trimEnd text).length := by
  obtain ⟨front, rfl⟩ := h
  rw [trimEnd_append]
  split
  next hblank => rw [trimEnd_eq_nil.mpr hblank]; exact Nat.zero_le _
  next => rw [List.length_append]; exact Nat.le_add_left _ _

-- Before the first quote the word is not whole, and behind it there are not two quotes.
theorem fails_upTo_fromSource {front tail : List Char} {opening : Char}
    (hfront : ∀ c ∈ front, isQuote c = false) (hlength : (trimEnd front).length < 4)
    (hopening : isQuote opening = true) (htail : tail.countP isQuote < 2) :
    fromSource.upTo.Fails (front ++ opening :: tail) := by
  refine fails_upTo fun back ⟨skipped, hskipped⟩ => ?_
  rcases List.append_eq_append_iff.mp hskipped with ⟨part, hpart, hback⟩ | ⟨part, hpart, hback⟩
  · have hsuffix : part <:+ front := ⟨skipped, hpart.symm⟩
    rw [hback]
    refine fails_fromSource (fun c hc => hfront c (hsuffix.subset hc)) ?_ ?_
    · exact Nat.ne_of_lt (Nat.lt_of_le_of_lt (length_trimEnd_of_suffix hsuffix) hlength)
    · intro c hc
      obtain rfl := Option.some.inj hc
      exact hopening
  · cases part with
    | nil =>
      rw [List.nil_append] at hback
      rw [← hback]
      exact fails_fromSource_of_quote hopening tail
    | cons c part =>
      have hsuffix : back <:+ tail := ⟨part, (List.cons.inj hback).2.symm⟩
      exact needs_fromSource.fails (Nat.lt_of_le_of_lt hsuffix.sublist.countP_le htail)

theorem fails_clauseThenSource_of_head? {text : List Char}
    (h : ∀ c ∈ text.head?, isBlank c = false) : clauseThenSource.Fails text :=
  (fails_run Nat.one_pos h).bind _

-- A clause that begins with the word before the source finds no other one.
theorem fails_upTo_of_from {α : Type} {after tail : List Char} {opening : Char}
    {next : Char → List Char × List Char → Matcher α} (hafter : isBlankText after = true)
    (hopening : isQuote opening = true) (htail : tail.countP isQuote < 2) :
    (char (fun _ => true) >>= fun first => fromSource.upTo >>= next first).Fails
      ("from".toList ++ after ++ opening :: tail) := by
  have hfront : ∀ c ∈ "rom".toList ++ after, isQuote c = false := fun c hc =>
    isQuote_of_mem_from hafter (List.mem_cons_of_mem 'f' hc)
  have hlength : (trimEnd ("rom".toList ++ after)).length < 4 := by
    rw [trimEnd_append, if_pos hafter]
    decide
  have hfails := fails_upTo_fromSource hfront hlength hopening htail
  exact (reads_char (c := 'f') rfl _).bind_fails (hfails.bind _)

-- With one blank before `from` nothing is left for a clause.
theorem fails_clauseThenSource_of_from {blank opening : Char} {after tail : List Char}
    (hblank : isBlank blank = true) (hafter : isBlankText after = true)
    (hopening : isQuote opening = true) (htail : tail.countP isQuote < 2) :
    clauseThenSource.Fails ([blank] ++ ("from".toList ++ after ++ opening :: tail)) := by
  have hgap : isBlankText [blank] = true := by
    rw [isBlankText, List.all_cons, hblank]
    rfl
  refine (reads_someBlanks hgap (List.cons_ne_nil _ _) ?_).bind_fails (Fails.either ?_ ?_)
  · intro c hc
    obtain rfl := Option.some.inj hc
    rfl
  · exact fails_upTo_of_from hafter hopening htail
  · exact (fails_assert (fun _ => rfl) _).bind _

theorem fails_clauseThenSource_of_quote {gap tail : List Char} {opening : Char}
    (hgap : isBlankText gap = true) (hopening : isQuote opening = true)
    (htail : tail.countP isQuote < 2) : clauseThenSource.Fails (gap ++ opening :: tail) := by
  have hsolid : ∀ c ∈ (opening :: tail).head?, isBlank c = false := by
    intro c hc
    obtain rfl := Option.some.inj hc
    exact isBlank_of_isQuote hopening
  by_cases hne : gap = []
  · rw [hne, List.nil_append]
    exact fails_clauseThenSource_of_head? hsolid
  · have hsource := fails_fromSource_of_quote hopening tail
    refine (reads_someBlanks hgap hne hsolid).bind_fails (Fails.either ?_ ?_)
    · exact (reads_char (c := opening) rfl tail).bind_fails
        ((needs_fromSource.upTo.fails htail).bind _)
    · exact fails_assert_bind _ (hsource.bind _)

/-! ## 6. The mark -/

theorem takeWhile_isIdentChar {name back : List Char} (hname : name.all isIdentChar = true)
    (hback : ∀ c ∈ back.head?, isIdentChar c = false) :
    (name ++ back).takeWhile isIdentChar = name := by
  rw [List.takeWhile_append_of_pos (List.all_eq_true.mp hname)]
  cases back with
  | nil => simp
  | cons c back => simp [hback c rfl]

variable {α : Type} {next : List Char × List Char → Matcher α}

theorem fails_mark_of_fails {text : List Char} (h : clauseThenSource.Fails text) :
    (literal "type" >>= fun _ => clauseThenSource >>= next).Fails ("type".toList ++ text) :=
  (reads_literal "type" text).bind_fails (h.bind next)

-- Another first word, or none, is no mark.
theorem fails_mark_of_takeWhile {text : List Char}
    (h : text.takeWhile isIdentChar ≠ "type".toList) :
    (literal "type" >>= fun _ => clauseThenSource >>= next).Fails text := by
  by_cases hword : "type".toList <+: text
  · obtain ⟨back, rfl⟩ := hword
    refine fails_mark_of_fails (fails_clauseThenSource_of_head? fun c hc => ?_)
    cases hblank : isBlank c with
    | false => rfl
    | true =>
      refine absurd (takeWhile_isIdentChar (by decide) fun d hd => ?_) h
      obtain rfl := Option.some.inj ((Option.mem_def.mp hc).symm.trans hd)
      exact isIdentChar_of_isBlank hblank
  · exact (fails_literal hword).bind _

theorem fails_mark_of_name {name back : List Char} (hname : name.all isIdentChar = true)
    (hne : name ≠ "type".toList) (hback : ∀ c ∈ back.head?, isIdentChar c = false) :
    (literal "type" >>= fun _ => clauseThenSource >>= next).Fails (name ++ back) := by
  refine fails_mark_of_takeWhile fun htype => hne ?_
  rwa [takeWhile_isIdentChar hname hback] at htype

-- Where a gap may be empty something else than a name follows it.
theorem isIdentChar_of_mem_head? {gap back : List Char} {c : Char}
    (hgap : isBlankText gap = true) (hc : isIdentChar c = false) :
    ∀ d ∈ (gap ++ c :: back).head?, isIdentChar d = false := by
  intro d hd
  cases gap with
  | nil =>
    obtain rfl := Option.some.inj hd
    exact hc
  | cons blank gap =>
    obtain rfl := Option.some.inj hd
    exact isIdentChar_of_mem_gap hgap blank List.mem_cons_self

/-- Without a mark none is read, where no name is mistaken for one. -/
theorem fails_mark {binding : Binding} (h : binding.WellFormed) (hmark : binding.mark = none)
    (hmistake : ¬ binding.MistakesName) {opening : Char} {tail : List Char}
    (hopening : isQuote opening = true) (htail : tail.countP isQuote < 2) :
    (literal "type" >>= fun _ => clauseThenSource >>= next).Fails
      (binding.text ++ opening :: tail) := by
  obtain ⟨mark, clause, before, after⟩ := binding
  obtain rfl : mark = none := hmark
  have hbefore : isBlankText before = true := h.before
  obtain ⟨blank, gap, rfl⟩ := List.exists_cons_of_ne_nil h.before_ne_nil
  have hblank : isBlank blank = true := List.all_eq_true.mp hbefore blank List.mem_cons_self
  have hmistake := not_and.mp hmistake rfl
  change (literal "type" >>= fun _ => clauseThenSource >>= next).Fails
    ((clause.text ++ (blank :: gap ++ ("from".toList ++ after))) ++ opening :: tail)
  cases h.clause with
  | @default name isName =>
    rw [Clause.text, List.append_assoc]
    by_cases hname : name = "type".toList
    · have hgap : gap = [] := by
        by_contra hne
        refine hmistake ⟨hname, fun hlength => hne ?_⟩
        exact List.length_eq_zero_iff.mp (Nat.succ.inj hlength)
      rw [hname, hgap, List.append_assoc]
      exact fails_mark_of_fails (fails_clauseThenSource_of_from hblank h.after hopening htail)
    · refine fails_mark_of_name (all_isIdentChar_of_isIdentifier isName.isIdentifier) hname ?_
      intro c hc
      obtain rfl := Option.some.inj hc
      exact isIdentChar_of_isBlank hblank
  | group wellFormed =>
    refine fails_mark_of_takeWhile ?_
    cases wellFormed <;> exact fun htype => List.cons_ne_nil 't' _ htype.symm
  | @both name gap rest bindings isName hgap _ _ =>
    rw [Clause.text, List.append_assoc, List.append_assoc, List.append_assoc]
    by_cases hname : name = "type".toList
    · have hnil : gap = [] := by
        by_contra hne
        exact hmistake ⟨hname, hne⟩
      rw [hname, hnil, List.nil_append]
      refine fails_mark_of_fails (fails_clauseThenSource_of_head? fun c hc => ?_)
      obtain rfl := Option.some.inj hc
      rfl
    · exact fails_mark_of_name (all_isIdentChar_of_isIdentifier isName.isIdentifier) hname
        (isIdentChar_of_mem_head? hgap rfl)

/-! ## 7. Statements -/

theorem isQuote_of_isClauseChar {c : Char} (h : isClauseChar c = true) : isQuote c = false := by
  cases hquote : isQuote c with
  | false => rfl
  | true =>
    rw [isQuote, Bool.or_eq_true, beq_iff_eq, beq_iff_eq] at hquote
    rcases hquote with rfl | rfl <;> exact absurd h (by decide)

theorem Clause.WellFormed.isClauseText {clause : Clause} (h : clause.WellFormed) :
    IsClauseText clause.text where
  solidStart := h.solidStart
  solidEnd := h.solidEnd
  isQuote c hc := isQuote_of_isClauseChar (h.isClauseChar c hc)

theorem reads_marked {text : List Char} (hgap : isBlankText gap = true) (hgapNe : gap ≠ [])
    (hread : clauseThenSource.Reads text rest (clause, source)) :
    clauseImport.Reads (gap ++ ("type".toList ++ text)) rest (true, clause, source) := by
  have hpair : (clauseThenSource >>= fun found =>
      (pure (true, found.1, found.2) : Matcher (Bool × List Char × List Char))).Reads text rest
        (true, clause, source) := hread.bind_pure fun found => (true, found.1, found.2)
  have hmark : (literal "type" >>= fun _ => clauseThenSource >>= fun found =>
      (pure (true, found.1, found.2) : Matcher (Bool × List Char × List Char))).Reads
        ("type".toList ++ text) rest (true, clause, source) :=
    (reads_literal "type" (text ++ rest)).bind hpair
  have hsolid : ∀ c ∈ ("type".toList ++ text ++ rest).head?, isBlank c = false := by
    intro c hc
    obtain rfl := Option.some.inj hc
    rfl
  exact (Reads.bind (reads_someBlanks hgap hgapNe hsolid) hmark).either_left _

/-- What follows the keyword of an import that binds names. -/
theorem reads_clauseImport {binding : Binding} (h : binding.WellFormed)
    (hmistake : ¬ binding.MistakesName) {gap tail rest source : List Char} {opening : Char}
    (hgap : isBlankText gap = true) (hgapNe : gap ≠ []) (hopening : isQuote opening = true)
    (htail : (tail ++ rest).countP isQuote < 2)
    (hquoted : quotedSource.Reads (opening :: tail) rest source) :
    clauseImport.Reads (gap ++ (binding.text ++ opening :: tail)) rest
      (binding.mark.isSome, binding.clause.text, source) := by
  have hclause (front : List Char) (hfront : isBlankText front = true) (hne : front ≠ []) :=
    reads_clauseThenSource hfront hne h.clause.isClauseText h.before h.before_ne_nil h.after
      ⟨opening, rfl, hopening⟩ hquoted
  cases hmark : binding.mark with
  | none =>
    have htext : binding.text = binding.clause.text ++
        (binding.before ++ ("from".toList ++ binding.after)) := by
      rw [Binding.text, Binding.markText, hmark]
      rfl
    have hsolid : ∀ c ∈ (binding.text ++ opening :: (tail ++ rest)).head?, isBlank c = false := by
      rw [htext]
      exact ((h.clause.solidStart.append _).append _).isBlank_of_mem_head?
    have hleft : (someBlanks >>= fun _ => literal "type" >>= fun _ => clauseThenSource >>=
        fun found => (pure (true, found.1, found.2) : Matcher (Bool × List Char × List Char))).Fails
          (gap ++ (binding.text ++ opening :: (tail ++ rest))) :=
      (reads_someBlanks hgap hgapNe hsolid).bind_fails (fails_mark h hmark hmistake hopening htail)
    have hright := (hclause gap hgap hgapNe).bind_pure fun found => (false, found.1, found.2)
    refine Reads.either_right ?_ ?_
    · simpa [htext] using hright
    · simpa using hleft
  | some markGap =>
    obtain ⟨hmarkGap, hmarkNe⟩ := h.mark markGap hmark
    have htext : binding.text = "type".toList ++ (markGap ++ (binding.clause.text ++
        (binding.before ++ ("from".toList ++ binding.after)))) := by
      rw [Binding.text, Binding.markText, hmark, List.append_assoc]
    have hmarked := reads_marked hgap hgapNe (hclause markGap hmarkGap hmarkNe)
    simpa [htext] using hmarked

-- An import for its effects has no clause.
theorem fails_clauseImport {gap tail : List Char} {opening : Char}
    (hgap : isBlankText gap = true) (hopening : isQuote opening = true)
    (htail : tail.countP isQuote < 2) : clauseImport.Fails (gap ++ opening :: tail) := by
  have hsolid : ∀ c ∈ (opening :: tail).head?, isBlank c = false := by
    intro c hc
    obtain rfl := Option.some.inj hc
    exact isBlank_of_isQuote hopening
  have hclause := fails_clauseThenSource_of_quote hgap hopening htail
  refine Fails.either ?_ (hclause.bind _)
  by_cases hne : gap = []
  · rw [hne, List.nil_append]
    exact (fails_run Nat.one_pos hsolid).bind _
  · refine (reads_someBlanks hgap hne hsolid).bind_fails (fails_mark_of_takeWhile ?_)
    have hident : isIdentChar opening = false := by
      rw [isQuote, Bool.or_eq_true, beq_iff_eq, beq_iff_eq] at hopening
      rcases hopening with rfl | rfl <;> rfl
    rw [List.takeWhile_cons_of_neg (by simp [hident])]
    decide

theorem reads_bareImport {gap tail rest source : List Char} {opening : Char}
    (hgap : isBlankText gap = true) (hopening : isQuote opening = true)
    (hquoted : quotedSource.Reads (opening :: tail) rest source) :
    bareImport.Reads (gap ++ opening :: tail) rest source := by
  refine Reads.bind (reads_run (Nat.zero_le _) hgap fun c hc => ?_) hquoted
  obtain rfl := Option.some.inj hc
  exact isBlank_of_isQuote hopening

namespace Written

variable {written : Written}

theorem WellFormed.reads_quoted (h : written.WellFormed) (rest : List Char) :
    quotedSource.Reads written.quoted rest written.source :=
  reads_quotedSource h.opening h.source_ne_nil (fun c hc => (h.source c hc).1) h.closing rest

-- Behind the quote that opens the source there is only the one that closes it.
theorem WellFormed.countP_tail (h : written.WellFormed) :
    ((written.source ++ [written.closing]) ++ written.ending).countP isQuote < 2 := by
  have hnone {text : List Char} (htext : ∀ c ∈ text, isQuote c = false ∧ c ≠ '\n') :
      text.countP isQuote = 0 := by
    rw [List.countP_eq_zero]
    intro c hc
    simp [(htext c hc).1]
  rw [List.countP_append, List.countP_append, hnone h.source, hnone h.ending,
    List.countP_singleton]
  split <;> decide

-- What is read behind the keyword is what the statement is.
theorem WellFormed.matchStart?_of_reads (h : written.WellFormed) {source : List Char}
    {names : List ImportedName} (hbody : (either
      (clauseImport >>= fun found =>
        (pure (found.2.2, clauseNames found.1 found.2.1) : Matcher (List Char × List ImportedName)))
      (bareImport >>= fun source => pure (source, []))).Reads
        (written.middle ++ written.quoted) written.ending (source, names)) :
    statement.matchStart? written.text = some (source, names) := by
  have hkeyword (rest : List Char) :
      importKeyword.Reads (written.indent ++ "import".toList) rest () := by
    refine Reads.bind (reads_run (Nat.zero_le _) h.indent fun c hc => ?_)
      (reads_literal "import" rest)
    obtain rfl := Option.some.inj hc
    rfl
  have hstatement : statement.Reads
      ((written.indent ++ "import".toList) ++ (written.middle ++ written.quoted)) written.ending
        (source, names) := (hkeyword _).bind hbody
  have htext : written.text =
      ((written.indent ++ "import".toList) ++ (written.middle ++ written.quoted)) ++
        written.ending := by
    simp only [text, List.append_assoc]
  rw [htext]
  exact hstatement.matchStart?_append

theorem WellFormed.matchStart?_of_clauseImport (h : written.WellFormed) {binding : Binding}
    (hbinding : written.binding = some binding) {typeOnly : Bool} {clause : List Char}
    (hread : clauseImport.Reads (written.gap ++ (binding.text ++ written.quoted)) written.ending
      (typeOnly, clause, written.source)) :
    statement.matchStart? written.text =
      some (written.source, clauseNames typeOnly clause) := by
  have hnames := hread.bind_pure fun found => (found.2.2, clauseNames found.1 found.2.1)
  refine h.matchStart?_of_reads (Reads.either_left ?_ _)
  rw [middle, hbinding]
  simpa using hnames

/-- A statement is read as it is meant, unless a name of its is mistaken for the mark. -/
theorem WellFormed.matchStart?_text (h : written.WellFormed)
    (hmistake : ∀ binding ∈ written.binding, ¬ binding.MistakesName) :
    statement.matchStart? written.text = some (written.source, written.names) := by
  cases hbinding : written.binding with
  | none =>
    have hbare := (reads_bareImport h.gap h.opening (h.reads_quoted written.ending)).bind_pure
      fun source => (source, ([] : List ImportedName))
    have hclause := (fails_clauseImport h.gap h.opening h.countP_tail).bind fun found =>
      (pure (found.2.2, clauseNames found.1 found.2.1) : Matcher (List Char × List ImportedName))
    rw [names, hbinding]
    refine h.matchStart?_of_reads ?_
    rw [middle, hbinding]
    refine Reads.either_right hbare ?_
    simpa [quoted] using hclause
  | some binding =>
    have hwellFormed := h.binding binding hbinding
    have hread := reads_clauseImport hwellFormed (hmistake binding hbinding) h.gap
      (h.gap_ne_nil (by simp [hbinding])) h.opening h.countP_tail (h.reads_quoted written.ending)
    rw [h.matchStart?_of_clauseImport hbinding hread, clauseNames_text hwellFormed.clause, names,
      hbinding]
    rfl

end Written

/-! ## 8. A name that is taken for the mark -/

-- Of more than one blank before `from` the last is read as the clause.
theorem reads_clauseThenSource_of_from {gap after tail rest source : List Char} {opening : Char}
    (hgap : isBlankText gap = true) (hlength : 2 ≤ gap.length) (hafter : isBlankText after = true)
    (hopening : isQuote opening = true) (htail : (tail ++ rest).countP isQuote < 2)
    (hquoted : quotedSource.Reads (opening :: tail) rest source) :
    clauseThenSource.Reads (gap ++ ("from".toList ++ after ++ opening :: tail)) rest
      (gap.getLast?.toList, source) := by
  have hne : gap ≠ [] := List.length_pos_iff.mp (Nat.lt_of_lt_of_le Nat.zero_lt_two hlength)
  have hstart : SolidStart (opening :: tail) := ⟨opening, rfl, isBlank_of_isQuote hopening⟩
  have hsolid : ∀ c ∈ ("from".toList ++ after ++ opening :: tail ++ rest).head?,
      isBlank c = false := by
    intro c hc
    obtain rfl := Option.some.inj hc
    rfl
  intro cursor hcursor
  rw [List.append_assoc] at hcursor
  have hrest := Cursor.rest_behind hcursor
  have hprevious : (cursor.behind gap).previous = some (gap.getLast hne) := by
    rw [Cursor.behind, List.getLast?_eq_some_getLast hne]
    rfl
  have hleft : (char (fun _ => true) >>= fun first => fromSource.upTo >>= fun found =>
      (pure (first :: trimEnd found.1, found.2) : Matcher (List Char × List Char)))
        (cursor.behind gap) = none := by
    refine fails_upTo_of_from hafter hopening htail _ ?_
    rw [hrest, List.append_assoc _ (opening :: tail), List.cons_append]
  have hright := fromSource_eq hafter hstart hquoted hrest
    (List.all_eq_true.mp hgap _ (List.getLast_mem hne)) hprevious
  change (someBlanks cursor).bind (fun read => (either
    (char (fun _ => true) >>= fun first => fromSource.upTo >>= fun found =>
      (pure (first :: trimEnd found.1, found.2) : Matcher (List Char × List Char)))
    (assert (fun _ => 2 ≤ read.1.length) >>= fun _ => fromSource >>= fun source =>
      pure (read.1.getLast?.toList, source))) read.2) = _
  rw [reads_someBlanks hgap hne hsolid cursor hcursor]
  change Option.or _ ((assert (fun _ => 2 ≤ gap.length) (cursor.behind gap)).bind fun read =>
    (fromSource read.2).bind fun found => some ((gap.getLast?.toList, found.1), found.2)) = _
  rw [hleft, assert, if_pos (by simpa using hlength), Option.none_or, Option.bind_some, hright,
    Cursor.behind_append cursor gap]
  rfl

/-- The names of a group, as types, that are left of a clause without its default name. -/
def Clause.namesOfGroup : Clause → List ImportedName
  | default _ => []
  | group bindings => (Clause.group bindings).names true
  | both _ _ _ bindings => (Clause.group bindings).names true

theorem clauseNames_comma_group {gap : List Char} {bindings : Group}
    (hgap : isBlankText gap = true) (h : bindings.WellFormed) :
    clauseNames true (',' :: (gap ++ bindings.text)) = (Clause.group bindings).names true := by
  have hbrace : '\x7b' ∉ ',' :: gap := by
    rw [List.mem_cons, not_or]
    exact ⟨by decide, fun hmem => absurd (List.all_eq_true.mp hgap _ hmem) (by decide)⟩
  have hempty : plainNames true [] = [] := plainNames_of_isBlankText rfl true
  cases h with
  | @braces items last hitems hlast =>
    have hcomma := plainNames_append_comma true [] gap
    rw [List.nil_append, hempty, plainNames_of_isBlankText hgap] at hcomma
    rw [← List.cons_append, clauseNames_braces hbrace hitems hlast, hcomma, List.append_nil,
      List.append_nil]
    rfl
  | @star before after name hbefore hafter _ isName =>
    have hcomma := plainNames_append_comma true [] (gap ++ (Group.star before after name).text)
    rw [List.nil_append, hempty, plainNames_star hgap hbefore hafter isName] at hcomma
    have hnot : '\x7b' ∉ ',' :: (gap ++ (Group.star before after name).text) := by
      rw [← List.cons_append, List.mem_append, not_or]
      exact ⟨hbrace, Group.not_mem_text_star hbefore hafter isName (by decide)⟩
    rw [clauseNames_of_not_mem hnot, hcomma]
    rfl

namespace Written

variable {written : Written} {binding : Binding}

/-- A default name that is taken for the mark is lost. -/
theorem WellFormed.matchStart?_of_mistakesName (h : written.WellFormed)
    (hbinding : written.binding = some binding) (hmistake : binding.MistakesName) :
    statement.matchStart? written.text =
      some (written.source, binding.clause.namesOfGroup) := by
  obtain ⟨-, hclause, hbefore, hbeforeNe, hafter⟩ := h.binding binding hbinding
  obtain ⟨mark, clause, before, after⟩ := binding
  obtain ⟨rfl, hmistake⟩ : mark = none ∧ _ := hmistake
  have hgapNe : written.gap ≠ [] := h.gap_ne_nil (by simp [hbinding])
  have hquoted := h.reads_quoted written.ending
  cases hclause with
  | @default name isName =>
    obtain ⟨rfl, hone⟩ := hmistake
    have hlength : 2 ≤ before.length := by
      have hpos := List.length_pos_iff.mpr hbeforeNe
      change before.length ≠ 1 at hone
      change 0 < before.length at hpos
      omega
    have hread := reads_marked h.gap hgapNe
      (reads_clauseThenSource_of_from hbefore hlength hafter h.opening h.countP_tail hquoted)
    have hblank : isBlankText before.getLast?.toList = true := by
      rw [isBlankText, List.all_eq_true]
      intro c hc
      exact List.all_eq_true.mp hbefore c (List.mem_of_getLast? (Option.mem_toList.mp hc))
    have hnames : clauseNames true before.getLast?.toList = [] := by
      have hbrace : '\x7b' ∉ before.getLast?.toList := fun hmem =>
        absurd (List.all_eq_true.mp hblank _ hmem) (by decide)
      rw [clauseNames_of_not_mem hbrace, plainNames_of_isBlankText hblank]
    have hmatch := h.matchStart?_of_clauseImport hbinding (by
      simpa [Binding.text, Binding.markText, Clause.text, quoted] using hread)
    rwa [hnames] at hmatch
  | group => exact hmistake.elim
  | @both name gap rest bindings isName hgap hrest wellFormed =>
    obtain ⟨rfl, hne⟩ := hmistake
    have hcomma : IsClauseText (',' :: (rest ++ bindings.text)) := by
      refine ⟨⟨',', rfl, rfl⟩, (wellFormed.solidEnd.append rest).append [','], ?_⟩
      intro c hc
      rw [List.mem_cons, List.mem_append] at hc
      rcases hc with rfl | hc | hc
      · rfl
      · exact isQuote_of_isBlank (List.all_eq_true.mp hrest c hc)
      · exact isQuote_of_isClauseChar (wellFormed.isClauseChar c hc)
    have hread := reads_marked h.gap hgapNe
      (reads_clauseThenSource hgap hne hcomma hbefore hbeforeNe hafter
        ⟨written.opening, rfl, h.opening⟩ hquoted)
    have hmatch := h.matchStart?_of_clauseImport hbinding (by
      simpa [Binding.text, Binding.markText, Clause.text, quoted] using hread)
    rwa [clauseNames_comma_group hrest wellFormed] at hmatch

end Written

end Scrutiny.Imports
