import Scrutiny.Detect.Rules
import Scrutiny.Proofs.Text.CharClass
import Scrutiny.Proofs.Text.Matcher

/-!
Sentences that say to avoid a package, as texts: `use X instead of Y`, and `don't use X`, `do not
use X` and `never use X`.  The matchers for them read nothing else, and from where such a sentence
begins they read all of it, up to the end of its last package name.
-/

namespace Scrutiny

/-! ## 1. Words -/

namespace Text

theorem foldCase_of_isBlank {c : Char} (h : isBlank c = true) : foldCase c = c := by
  apply forall_of_isBlank _ c h
  decide

theorem isBlank_of_foldCase {c letter : Char} (h : foldCase c = letter)
    (hletter : isBlank letter = false) : isBlank c = false := by
  cases hc : isBlank c with
  | false => rfl
  | true =>
    rw [foldCase_of_isBlank hc] at h
    rw [h, hletter] at hc
    exact hc.symm

theorem Spells.foldCase_mem {text : List Char} {word : String} (h : Spells text word) {c : Char}
    (hc : c ∈ text) : foldCase c ∈ word.toList.map foldCase :=
  h ▸ List.mem_map_of_mem hc

theorem Spells.exists_head {text : List Char} {word : String} (h : Spells text word) {c : Char}
    (hc : (word.toList.map foldCase).head? = some c) :
    ∃ d more, text = d :: more ∧ foldCase d = c := by
  rw [← h] at hc
  cases text with
  | nil => exact absurd hc (by simp)
  | cons d more => exact ⟨d, more, rfl, Option.some.inj hc⟩

end Text

namespace Rules

open Text Matcher

/-- A word in some letter case and blanks after it. -/
inductive Spaced (word : String) : List Char → Prop
  | intro {text gap : List Char} (spells : Spells text word) (ne_nil : gap ≠ [])
      (blank : gap.all isBlank = true) : Spaced word (text ++ gap)

variable {keyword : String} {part : List Char}

theorem consumes_wordThenBlanks (word : String) :
    (wordThenBlanks word).Consumes fun part _ => Spaced word part := by
  have hblanks : (someBlanks >>= fun _ => pure ()).Consumes
      fun part _ => part ≠ [] ∧ part.all isBlank = true := by
    refine (consumes_run 1 isBlank).bind_pure _ ?_
    rintro part _ ⟨rfl, hlength, hblank⟩
    exact ⟨List.ne_nil_of_length_pos hlength, hblank⟩
  refine (consumes_word word).bind (fun _ => hblanks) ?_
  rintro text _ gap _ hspells ⟨hne, hblank⟩
  exact .intro hspells hne hblank

theorem Spaced.reads (h : Spaced keyword part) {rest : List Char}
    (hrest : ∀ c ∈ rest.head?, isBlank c = false) :
    (wordThenBlanks keyword).Reads part rest () := by
  obtain ⟨hspells, hne, hblank⟩ := h
  refine (reads_word hspells _).bind ?_
  exact (reads_run (List.length_pos_iff.mpr hne) hblank hrest).bind_pure fun _ => ()

theorem Spaced.exists_head (h : Spaced keyword part) {c : Char}
    (hc : (keyword.toList.map foldCase).head? = some c) :
    ∃ d more, part = d :: more ∧ foldCase d = c := by
  obtain ⟨hspells, -, -⟩ := h
  obtain ⟨d, more, rfl, hd⟩ := hspells.exists_head hc
  exact ⟨d, _, List.cons_append, hd⟩

theorem Spaced.foldCase_ne (h : Spaced keyword part) {letter : Char}
    (hletter : isBlank letter = false) (hword : letter ∉ keyword.toList.map foldCase) :
    ∀ c ∈ part, foldCase c ≠ letter := by
  obtain ⟨hspells, -, hblank⟩ := h
  rintro c hc rfl
  rcases List.mem_append.mp hc with htext | hgap
  · exact hword (hspells.foldCase_mem htext)
  · have hc := List.all_eq_true.mp hblank c hgap
    rw [isBlank_of_foldCase rfl hletter] at hc
    exact absurd hc (by simp)

/-! ## 2. Sentences -/

def isTokenChar (c : Char) : Bool :=
  isWordChar c || c == '@' || c == '.' || c == '/' || c == '-'

/-- A package name as it stands in a sentence, bare or in backticks. -/
inductive IsToken : List Char → Prop
  | bare {raw : List Char} (ne_nil : raw ≠ []) (chars : raw.all isTokenChar = true) : IsToken raw
  | quoted {span : List Char} (ne_nil : span ≠ []) (chars : span.all (· != '`') = true) :
      IsToken (['`'] ++ (span ++ ['`']))

/-- What makes `use X` a negated sentence: `don't`, `do not` or `never`. -/
inductive IsNegation : List Char → Prop
  | contracted {don apostrophe t : List Char} (don_spells : Spells don "don")
      (apostrophe_mem : apostrophe ∈ [[], ['’'], ['\'']]) (t_spaced : Spaced "t" t) :
      IsNegation (don ++ (apostrophe ++ t))
  | spaced {verb adverb : List Char} (verb_spaced : Spaced "do" verb)
      (adverb_spaced : Spaced "not" adverb) : IsNegation (verb ++ adverb)
  | never {adverb : List Char} (adverb_spaced : Spaced "never" adverb) : IsNegation adverb

/-- What stands between the packages of `use X instead of Y`. -/
inductive IsBridge : List Char → Prop
  | intro {gap adverb preposition : List Char} (ne_nil : gap ≠ [])
      (blank : gap.all isBlank = true) (adverb_spaced : Spaced "instead" adverb)
      (preposition_spaced : Spaced "of" preposition) : IsBridge (gap ++ (adverb ++ preposition))

theorem consumes_token : token.Consumes fun part raw => part = raw ∧ IsToken raw := by
  have hend (span : List Char) : (literal "`" >>= fun _ => pure span).Consumes
      fun part _ => part = ['`'] :=
    (consumes_literal "`").bind_pure _ fun _ _ => id
  have hspan : ((run 1 fun c => c != '`') >>= fun span =>
      literal "`" >>= fun _ => pure span).Consumes
        fun part _ => ∃ span, part = span ++ ['`'] ∧ span ≠ [] ∧ span.all (· != '`') = true := by
    refine (consumes_run 1 _).bind hend ?_
    rintro _ span _ _ ⟨rfl, hlength, hall⟩ rfl
    exact ⟨_, rfl, List.ne_nil_of_length_pos hlength, hall⟩
  have hquoted : (literal "`" >>= fun _ => (run 1 fun c => c != '`') >>= fun span =>
      literal "`" >>= fun _ => pure span).Consumes fun part _ => IsToken part := by
    refine (consumes_literal "`").bind (fun _ => hspan) ?_
    rintro _ _ _ _ rfl ⟨span, rfl, hne, hall⟩
    exact .quoted hne hall
  have hbare : (run 1 isTokenChar).Consumes fun part _ => IsToken part := by
    refine (consumes_run 1 isTokenChar).imp ?_
    rintro part _ ⟨rfl, hlength, hall⟩
    exact .bare (List.ne_nil_of_length_pos hlength) hall
  refine (hquoted.either hbare).matched.imp ?_
  rintro part raw ⟨rfl, _, htoken⟩
  exact ⟨rfl, htoken⟩

/-- A sentence `use X instead of Y`, in its parts. -/
structure IsRecommendation (part : List Char) (use wanted bridge avoided : List Char) : Prop where
  part_eq : part = use ++ (wanted ++ (bridge ++ avoided))
  use_spaced : Spaced "use" use
  wanted_token : IsToken wanted
  bridge_spells : IsBridge bridge
  avoided_token : IsToken avoided

/-- A sentence `don't use X`, `do not use X` or `never use X`, in its parts. -/
structure IsProhibition (part : List Char) (negation use forbidden : List Char) : Prop where
  part_eq : part = negation ++ (use ++ forbidden)
  negation_spells : IsNegation negation
  use_spaced : Spaced "use" use
  forbidden_token : IsToken forbidden

theorem consumes_insteadOf : insteadOf.Consumes fun part named =>
    ∃ use bridge, IsRecommendation part use named.1 bridge named.2 := by
  have hend (wanted : List Char) : (token >>= fun avoided => pure (wanted, avoided)).Consumes
      fun part named => named.1 = wanted ∧ part = named.2 ∧ IsToken named.2 :=
    consumes_token.bind_pure _ fun _ _ h => ⟨rfl, h⟩
  have hof (wanted : List Char) : (wordThenBlanks "of" >>= fun _ =>
      token >>= fun avoided => pure (wanted, avoided)).Consumes fun part named =>
        named.1 = wanted ∧ ∃ preposition, part = preposition ++ named.2 ∧
          Spaced "of" preposition ∧ IsToken named.2 := by
    refine (consumes_wordThenBlanks "of").bind (fun _ => hend wanted) ?_
    rintro preposition _ _ named hof ⟨hwanted, rfl, htoken⟩
    exact ⟨hwanted, preposition, rfl, hof, htoken⟩
  have hinstead (wanted : List Char) : (wordThenBlanks "instead" >>= fun _ =>
      wordThenBlanks "of" >>= fun _ =>
      token >>= fun avoided => pure (wanted, avoided)).Consumes fun part named =>
        named.1 = wanted ∧ ∃ adverb preposition, part = adverb ++ preposition ++ named.2 ∧
          Spaced "instead" adverb ∧ Spaced "of" preposition ∧ IsToken named.2 := by
    refine (consumes_wordThenBlanks "instead").bind (fun _ => hof wanted) ?_
    rintro adverb _ _ named hadverb ⟨hwanted, preposition, rfl, hrest⟩
    exact ⟨hwanted, adverb, preposition, (List.append_assoc _ _ _).symm, hadverb, hrest⟩
  have hbridge (wanted : List Char) : (someBlanks >>= fun _ =>
      wordThenBlanks "instead" >>= fun _ => wordThenBlanks "of" >>= fun _ =>
      token >>= fun avoided => pure (wanted, avoided)).Consumes fun part named =>
        named.1 = wanted ∧ ∃ bridge, part = bridge ++ named.2 ∧ IsBridge bridge ∧
          IsToken named.2 := by
    refine (consumes_run 1 isBlank).bind (fun _ => hinstead wanted) ?_
    rintro _ gap _ named ⟨rfl, hlength, hblank⟩
      ⟨hwanted, adverb, preposition, rfl, hadverb, hpreposition, htoken⟩
    exact ⟨hwanted, _, (List.append_assoc _ _ _).symm,
      .intro (List.ne_nil_of_length_pos hlength) hblank hadverb hpreposition, htoken⟩
  have hwanted : (token >>= fun wanted => someBlanks >>= fun _ =>
      wordThenBlanks "instead" >>= fun _ => wordThenBlanks "of" >>= fun _ =>
      token >>= fun avoided => pure (wanted, avoided)).Consumes fun part named =>
        ∃ bridge, part = named.1 ++ (bridge ++ named.2) ∧ IsToken named.1 ∧ IsBridge bridge ∧
          IsToken named.2 := by
    refine consumes_token.bind hbridge ?_
    rintro _ wanted _ named ⟨rfl, htoken⟩ ⟨rfl, bridge, rfl, hrest⟩
    exact ⟨bridge, rfl, htoken, hrest⟩
  have huse : (wordThenBlanks "use" >>= fun _ => token >>= fun wanted => someBlanks >>= fun _ =>
      wordThenBlanks "instead" >>= fun _ => wordThenBlanks "of" >>= fun _ =>
      token >>= fun avoided => pure (wanted, avoided)).Consumes fun part named =>
        ∃ use bridge, IsRecommendation part use named.1 bridge named.2 := by
    refine (consumes_wordThenBlanks "use").bind (fun _ => hwanted) ?_
    rintro use _ _ named huse ⟨bridge, rfl, hwanted, hbridge, havoided⟩
    exact ⟨use, bridge, rfl, huse, hwanted, hbridge, havoided⟩
  refine (consumes_assert _).bind (fun _ => huse) ?_
  rintro _ _ _ named ⟨rfl, -⟩ h
  exact h

/-- What a negated sentence begins with. -/
def negation : Matcher Unit :=
  anyOf [
    do
      word "don"
      let _ ← optional (char fun c => c == '’' || c == '\'')
      wordThenBlanks "t",
    do
      wordThenBlanks "do"
      wordThenBlanks "not",
    wordThenBlanks "never"]

theorem neverUse_eq : neverUse =
    wordBoundary >>= fun _ => negation >>= fun _ => wordThenBlanks "use" >>= fun _ => token := rfl

theorem consumes_negation : negation.Consumes fun part _ => IsNegation part := by
  have hcontracted : (optional (char fun c => c == '’' || c == '\'') >>= fun _ =>
      wordThenBlanks "t").Consumes fun part _ => ∃ apostrophe t, part = apostrophe ++ t ∧
        apostrophe ∈ [[], ['’'], ['\'']] ∧ Spaced "t" t := by
    refine (consumes_char _).optional.bind (fun _ => consumes_wordThenBlanks "t") ?_
    rintro apostrophe _ t _ hapostrophe ht
    refine ⟨apostrophe, t, rfl, ?_, ht⟩
    rcases hapostrophe with rfl | ⟨c, rfl, hc⟩
    · simp
    · simpa using hc
  refine consumes_anyOf fun choice hchoice => ?_
  simp only [List.mem_cons, List.not_mem_nil, or_false] at hchoice
  rcases hchoice with rfl | rfl | rfl
  · refine (consumes_word "don").bind (fun _ => hcontracted) ?_
    rintro don _ _ _ hdon ⟨apostrophe, t, rfl, hapostrophe, ht⟩
    exact .contracted hdon hapostrophe ht
  · refine (consumes_wordThenBlanks "do").bind (fun _ => consumes_wordThenBlanks "not") ?_
    rintro verb _ adverb _ hverb hadverb
    exact .spaced hverb hadverb
  · exact (consumes_wordThenBlanks "never").imp fun _ _ => .never

theorem consumes_neverUse : neverUse.Consumes fun part forbidden =>
    ∃ negation use, IsProhibition part negation use forbidden := by
  have huse : (wordThenBlanks "use" >>= fun _ => token).Consumes fun part forbidden =>
      ∃ use, part = use ++ forbidden ∧ Spaced "use" use ∧ IsToken forbidden := by
    refine (consumes_wordThenBlanks "use").bind (fun _ => consumes_token) ?_
    rintro use _ _ forbidden huse ⟨rfl, htoken⟩
    exact ⟨use, rfl, huse, htoken⟩
  have hnegation : (negation >>= fun _ => wordThenBlanks "use" >>= fun _ => token).Consumes
      fun part forbidden => ∃ negation use, IsProhibition part negation use forbidden := by
    refine consumes_negation.bind (fun _ => huse) ?_
    rintro negation _ _ forbidden hnegation ⟨use, rfl, huse, htoken⟩
    exact ⟨negation, use, rfl, hnegation, huse, htoken⟩
  rw [neverUse_eq]
  refine (consumes_assert _).bind (fun _ => hnegation) ?_
  rintro _ _ _ forbidden ⟨rfl, -⟩ h
  exact h

/-! ## 3. Reading sentences -/

theorem isTokenChar_of_isBlank {c : Char} (h : isBlank c = true) : isTokenChar c = false := by
  apply forall_of_isBlank _ c h
  decide +kernel

-- Beyond ASCII only an `s` and a `k` are folded.
theorem IsToken.isBlank_head {raw : List Char} (h : IsToken raw) (rest : List Char) :
    ∀ c ∈ (raw ++ rest).head?, isBlank c = false := by
  cases h with
  | quoted =>
    rintro _ ⟨⟩
    decide
  | bare hne hall =>
    obtain ⟨c, more, rfl⟩ := List.exists_cons_of_ne_nil hne
    rw [List.all_cons, Bool.and_eq_true] at hall
    rintro _ ⟨⟩
    cases hc : isBlank c with
    | false => rfl
    | true => exact absurd (isTokenChar_of_isBlank hc) (by simp [hall.1])

theorem IsToken.reads {raw rest : List Char} (h : IsToken raw)
    (hrest : ∀ c ∈ rest.head?, isTokenChar c = false) : token.Reads raw rest raw := by
  cases h with
  | @quoted span hne hall =>
    have hspan : (run 1 fun c => c != '`').Reads span (['`'] ++ rest) span :=
      reads_run (List.length_pos_iff.mpr hne) hall (by simp)
    have hend : (literal "`" >>= fun _ => pure span).Reads ['`'] rest span :=
      (reads_literal "`" rest).bind_pure fun _ => span
    have hquoted : (literal "`" >>= fun _ => (run 1 fun c => c != '`') >>= fun span =>
        literal "`" >>= fun _ => pure span).Reads (['`'] ++ (span ++ ['`'])) rest span :=
      (reads_literal "`" _).bind (hspan.bind hend)
    exact (hquoted.either_left _).matched
  | bare hne hall =>
    have hbare : (run 1 isTokenChar).Reads raw rest raw :=
      reads_run (List.length_pos_iff.mpr hne) hall hrest
    refine (hbare.either_right ?_).matched
    refine (fails_literal fun hprefix => ?_).bind _
    obtain ⟨c, more, rfl⟩ := List.exists_cons_of_ne_nil hne
    rw [List.all_cons, Bool.and_eq_true] at hall
    obtain rfl : '`' = c := (List.cons_prefix_cons.mp hprefix).1
    exact absurd hall.1 (by decide)

theorem Spaced.isBlank_head (h : Spaced keyword part) {c : Char}
    (hc : (keyword.toList.map foldCase).head? = some c) (hblank : isBlank c = false)
    (rest : List Char) : ∀ d ∈ (part ++ rest).head?, isBlank d = false := by
  obtain ⟨d, more, rfl, hd⟩ := h.exists_head hc
  rintro _ ⟨⟩
  exact isBlank_of_foldCase hd hblank

/-- Behind the letters of a shorter word a blank stands, and so no longer word is read there. -/
theorem Spaced.fails_word {longer : String} {letter : Char} (h : Spaced keyword part)
    (hlonger : keyword.toList.map foldCase ++ [letter] <+: longer.toList.map foldCase)
    (hletter : isBlank letter = false) (rest : List Char) :
    (word longer).Fails (part ++ rest) := by
  obtain ⟨hspells, hne, hblank⟩ := h
  obtain ⟨c, gap, rfl⟩ := List.exists_cons_of_ne_nil hne
  rw [List.all_cons, Bool.and_eq_true] at hblank
  refine Matcher.fails_word fun hprefix => ?_
  have hread := hlonger.trans hprefix
  rw [List.append_assoc, List.map_append, hspells, List.prefix_append_right_inj] at hread
  have hc : letter = foldCase c := (List.cons_prefix_cons.mp hread).1
  rw [foldCase_of_isBlank hblank.1] at hc
  rw [hc, hblank.1] at hletter
  exact absurd hletter (by simp)

theorem IsNegation.reads (h : IsNegation part) {rest : List Char}
    (hrest : ∀ c ∈ rest.head?, isBlank c = false) : negation.Reads part rest () := by
  intro cursor hcursor
  unfold negation
  cases h with
  | @contracted don apostrophe t hdon hapostrophe ht =>
    have hoptional : ∃ read, (optional (char fun c => c == '’' || c == '\'')).Reads apostrophe
        (t ++ rest) read := by
      simp only [List.mem_cons, List.not_mem_nil, or_false] at hapostrophe
      rcases hapostrophe with rfl | rfl | rfl
      · refine ⟨none, (fails_char ?_).optional⟩
        obtain ⟨d, more, rfl, hd⟩ := ht.exists_head (show _ = some 't' by decide)
        rintro _ ⟨⟩
        rw [Bool.or_eq_false_iff, beq_eq_false_iff_ne, beq_eq_false_iff_ne]
        constructor <;> rintro rfl <;> exact absurd hd (by decide)
      · exact ⟨_, (reads_char (by decide) _).optional⟩
      · exact ⟨_, (reads_char (by decide) _).optional⟩
    obtain ⟨read, hread⟩ := hoptional
    exact anyOf_cons_of_some
      (((reads_word hdon _).bind (hread.bind (ht.reads hrest))) cursor hcursor) _
  | @spaced verb adverb hverb hadverb =>
    rw [List.append_assoc] at hcursor
    have hdon : (word "don").Fails (verb ++ (adverb ++ rest)) :=
      hverb.fails_word (by decide) (show isBlank 'n' = false by decide) _
    rw [anyOf_cons_of_none (hdon.bind _ cursor hcursor)]
    refine anyOf_cons_of_some ?_ _
    refine (hverb.reads ?_).bind (hadverb.reads hrest) cursor ?_
    · exact hadverb.isBlank_head (show _ = some 'n' by decide) (by decide) rest
    · rw [List.append_assoc, hcursor]
  | never hadverb =>
    obtain ⟨c, more, rfl, hc⟩ := hadverb.exists_head (show _ = some 'n' by decide)
    have hfails {start : String} (hstart : (start.toList.map foldCase).head? = some 'd') :
        (word start).Fails (c :: more ++ rest) := by
      refine fails_word_of_head hstart ?_
      rintro _ ⟨⟩
      rw [hc]
      decide
    have hdon : (word "don").Fails (c :: more ++ rest) := hfails (by decide)
    have hdo : (wordThenBlanks "do").Fails (c :: more ++ rest) :=
      Fails.bind (hfails (by decide)) _
    rw [anyOf_cons_of_none (hdon.bind _ cursor hcursor),
      anyOf_cons_of_none (hdo.bind _ cursor hcursor)]
    exact anyOf_cons_of_some (hadverb.reads hrest cursor hcursor) _

theorem IsBridge.isTokenChar_head (h : IsBridge part) (rest : List Char) :
    ∀ c ∈ (part ++ rest).head?, isTokenChar c = false := by
  obtain ⟨hne, hblank, -, -⟩ := h
  rename_i gap _ _
  obtain ⟨c, more, rfl⟩ := List.exists_cons_of_ne_nil hne
  rw [List.all_cons, Bool.and_eq_true] at hblank
  rintro _ ⟨⟩
  exact isTokenChar_of_isBlank hblank.1

variable {use wanted bridge avoided rest : List Char}

theorem IsRecommendation.reads (h : IsRecommendation part use wanted bridge avoided)
    (hrest : ∀ c ∈ rest.head?, isTokenChar c = false) :
    (wordThenBlanks "use" >>= fun _ => token >>= fun wanted => someBlanks >>= fun _ =>
      wordThenBlanks "instead" >>= fun _ => wordThenBlanks "of" >>= fun _ =>
      token >>= fun avoided => pure (wanted, avoided)).Reads part rest (wanted, avoided) := by
  obtain ⟨rfl, huse, hwanted, hbridge, havoided⟩ := h
  have hhead := hbridge.isTokenChar_head (avoided ++ rest)
  obtain ⟨hne, hblank, hadverb, hpreposition⟩ := hbridge
  rename_i gap adverb preposition
  have hend : (token >>= fun avoided => pure (wanted, avoided)).Reads avoided rest
      (wanted, avoided) :=
    (havoided.reads hrest).bind_pure fun avoided => (wanted, avoided)
  have hof : (wordThenBlanks "of" >>= fun _ =>
      token >>= fun avoided => pure (wanted, avoided)).Reads (preposition ++ avoided) rest
        (wanted, avoided) :=
    (hpreposition.reads (havoided.isBlank_head rest)).bind hend
  have hinstead : (wordThenBlanks "instead" >>= fun _ => wordThenBlanks "of" >>= fun _ =>
      token >>= fun avoided => pure (wanted, avoided)).Reads
        (adverb ++ (preposition ++ avoided)) rest (wanted, avoided) := by
    refine (hadverb.reads ?_).bind hof
    rw [List.append_assoc]
    exact hpreposition.isBlank_head (show _ = some 'o' by decide) (by decide) _
  have hgap : (someBlanks >>= fun _ =>
      wordThenBlanks "instead" >>= fun _ => wordThenBlanks "of" >>= fun _ =>
      token >>= fun avoided => pure (wanted, avoided)).Reads
        (gap ++ (adverb ++ (preposition ++ avoided))) rest (wanted, avoided) := by
    refine (reads_run (List.length_pos_iff.mpr hne) hblank ?_).bind hinstead
    rw [List.append_assoc]
    exact hadverb.isBlank_head (show _ = some 'i' by decide) (by decide) _
  have hwanting : (token >>= fun wanted => someBlanks >>= fun _ =>
      wordThenBlanks "instead" >>= fun _ => wordThenBlanks "of" >>= fun _ =>
      token >>= fun avoided => pure (wanted, avoided)).Reads
        (wanted ++ (gap ++ (adverb ++ (preposition ++ avoided)))) rest (wanted, avoided) := by
    refine (hwanted.reads ?_).bind hgap
    simpa only [List.append_assoc] using hhead
  rw [List.append_assoc gap, List.append_assoc adverb]
  refine (huse.reads ?_).bind hwanting
  rw [List.append_assoc]
  exact hwanted.isBlank_head _

theorem IsProhibition.reads {negated : List Char} (h : IsProhibition part negated use wanted)
    (hrest : ∀ c ∈ rest.head?, isTokenChar c = false) :
    (negation >>= fun _ => wordThenBlanks "use" >>= fun _ => token).Reads part rest wanted := by
  obtain ⟨rfl, hnegation, huse, htoken⟩ := h
  refine (hnegation.reads ?_).bind ((huse.reads (htoken.isBlank_head rest)).bind
    (htoken.reads hrest))
  rw [List.append_assoc]
  exact huse.isBlank_head (show _ = some 'u' by decide) (by decide) _

end Rules

end Scrutiny
