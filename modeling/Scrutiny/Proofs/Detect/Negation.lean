import Scrutiny.Proofs.Detect.RuleAttribution
import Scrutiny.Proofs.Detect.Sentences

/-!
Negated sentences.  Each kind of sentence is searched for on its own, and `never use X instead of Y`
holds one of two kinds: the line forbids X, and it recommends X over Y.  Where a line forbids what
it recommends in another way, it says `use X instead of X`, or it does so in sentences that stand
apart, or one of them begins inside a package name of the other.
-/

namespace Scrutiny.Rules

open Text Matcher

variable {keyword : String} {part : List Char}

/-! ## 1. Where sentences begin -/

/-- A stretch of a line. -/
structure Span where
  start : Nat
  stop : Nat

namespace Span

def Holds (span : Span) (place : Nat) : Prop :=
  span.start ≤ place ∧ place < span.stop

def Apart (a b : Span) : Prop :=
  a.stop ≤ b.start ∨ b.stop ≤ a.start

end Span

/-- A sentence `use X instead of Y` on a line. -/
structure Recommendation (line : List Char) where
  front : List Char
  part : List Char
  use : List Char
  wanted : List Char
  bridge : List Char
  avoided : List Char
  isPrefix : front ++ part <+: line
  parts : IsRecommendation part use wanted bridge avoided

/-- A sentence `don't use X`, `do not use X` or `never use X` on a line. -/
structure Prohibition (line : List Char) where
  front : List Char
  part : List Char
  negation : List Char
  use : List Char
  forbidden : List Char
  isPrefix : front ++ part <+: line
  parts : IsProhibition part negation use forbidden

variable {line : List Char}

namespace Recommendation

def span (sentence : Recommendation line) : Span where
  start := sentence.front.length
  stop := (sentence.front ++ sentence.part).length

def wantedSpan (sentence : Recommendation line) : Span where
  start := (sentence.front ++ sentence.use).length
  stop := (sentence.front ++ (sentence.use ++ sentence.wanted)).length

def avoidedSpan (sentence : Recommendation line) : Span where
  start := (sentence.front ++ (sentence.use ++ (sentence.wanted ++ sentence.bridge))).length
  stop := (sentence.front ++ sentence.part).length

end Recommendation

namespace Prohibition

def span (sentence : Prohibition line) : Span where
  start := sentence.front.length
  stop := (sentence.front ++ sentence.part).length

/-- Where the word `use` stands. -/
def useStart (sentence : Prohibition line) : Nat :=
  (sentence.front ++ sentence.negation).length

def forbiddenSpan (sentence : Prohibition line) : Span where
  start := (sentence.front ++ (sentence.negation ++ sentence.use)).length
  stop := (sentence.front ++ sentence.part).length

end Prohibition

/-- The first two letters of the words that negate. -/
def openings : List (Char × Char) :=
  [('d', 'o'), ('n', 'e')]

section Beginnings

variable {front rest text : List Char} {c d : Char}

-- What begins in a text begins behind a part of it, or within.
theorem begins_cases (h : part ++ rest = front ++ c :: text) :
    (∃ back, front = part ++ back ∧ rest = back ++ c :: text) ∨
      ∃ inner, part = front ++ c :: inner ∧ text = inner ++ rest := by
  rcases List.append_eq_append_iff.mp h with ⟨back, hfront, hrest⟩ | ⟨inner, hpart, htext⟩
  · exact .inl ⟨back, hfront, hrest⟩
  · cases inner with
    | nil => exact .inl ⟨[], by simpa using hpart.symm, by simpa using htext.symm⟩
    | cons d inner =>
      obtain ⟨rfl, rfl⟩ := List.cons.inj htext
      exact .inr ⟨inner, hpart, rfl⟩

theorem begins_behind_blanks (hblank : part.all isBlank = true) (hc : isBlank c = false)
    (h : part ++ rest = front ++ c :: text) :
    ∃ back, front = part ++ back ∧ rest = back ++ c :: text := by
  rcases begins_cases h with hback | ⟨inner, rfl, -⟩
  · exact hback
  · have hc' := List.all_eq_true.mp hblank c (by simp)
    rw [hc] at hc'
    exact absurd hc' (by simp)

theorem isBlank_of_opens (hopens : (foldCase c, foldCase d) ∈ openings) :
    isBlank c = false ∧ isBlank d = false := by
  simp only [openings, List.mem_cons, Prod.mk.injEq, List.not_mem_nil, or_false] at hopens
  rcases hopens with ⟨hc, hd⟩ | ⟨hc, hd⟩ <;>
    exact ⟨isBlank_of_foldCase hc (by decide), isBlank_of_foldCase hd (by decide)⟩

theorem openings_not_in_keywords : ∀ keyword ∈ ["use", "instead", "of"], ∀ pair ∈ openings,
    ¬ [pair.1, pair.2] <:+: keyword.toList.map foldCase := by decide +kernel

/-- No negation begins in the words of a recommendation. -/
theorem Spaced.begins_behind (hpart : Spaced keyword part)
    (hkeyword : keyword ∈ ["use", "instead", "of"])
    (hopens : (foldCase c, foldCase d) ∈ openings) (h : part ++ rest = front ++ c :: d :: text) :
    ∃ back, front = part ++ back ∧ rest = back ++ c :: d :: text := by
  obtain ⟨hspells, hne, hblank⟩ := hpart
  obtain ⟨hc, hd⟩ := isBlank_of_opens hopens
  rename_i spelt gap
  rw [List.append_assoc] at h
  rcases begins_cases h with ⟨back, rfl, hrest⟩ | ⟨inner, rfl, htext⟩
  · obtain ⟨back, rfl, rfl⟩ := begins_behind_blanks hblank hc hrest
    exact ⟨back, (List.append_assoc _ _ _).symm, rfl⟩
  · cases inner with
    | nil =>
      obtain ⟨e, more, rfl⟩ := List.exists_cons_of_ne_nil hne
      obtain ⟨rfl, -⟩ := List.cons.inj htext
      rw [List.all_cons, hd] at hblank
      exact absurd hblank (by simp)
    | cons e inner =>
      obtain ⟨rfl, -⟩ := List.cons.inj htext
      have hinfix : [foldCase c, foldCase d] <:+: keyword.toList.map foldCase := by
        rw [← hspells]
        exact ⟨front.map foldCase, inner.map foldCase, by simp⟩
      exact absurd hinfix (openings_not_in_keywords keyword hkeyword _ hopens)

theorem IsBridge.begins_behind (hpart : IsBridge part)
    (hopens : (foldCase c, foldCase d) ∈ openings) (h : part ++ rest = front ++ c :: d :: text) :
    ∃ back, front = part ++ back ∧ rest = back ++ c :: d :: text := by
  obtain ⟨-, hblank, hadverb, hpreposition⟩ := hpart
  rw [List.append_assoc, List.append_assoc] at h
  obtain ⟨back, rfl, hleading⟩ := begins_behind_blanks hblank (isBlank_of_opens hopens).1 h
  obtain ⟨back, rfl, hending⟩ := hadverb.begins_behind (by simp) hopens hleading
  obtain ⟨back, rfl, hbehind⟩ := hpreposition.begins_behind (by simp) hopens hending
  exact ⟨back, by simp only [List.append_assoc], hbehind⟩

/-- A negation begins before a recommendation or behind it, or in a package name of it. -/
theorem Recommendation.begins_in_token (sentence : Recommendation line)
    (hopens : (foldCase c, foldCase d) ∈ openings) (h : front ++ c :: d :: text = line) :
    front.length < sentence.span.start ∨ sentence.wantedSpan.Holds front.length ∨
      sentence.avoidedSpan.Holds front.length ∨ sentence.span.stop ≤ front.length := by
  obtain ⟨before, part, use, wanted, bridge, avoided, ⟨rest, hline⟩,
    ⟨rfl, huse, -, hbridge, -⟩⟩ := sentence
  rw [← hline, List.append_assoc, List.append_assoc, List.append_assoc, List.append_assoc,
    eq_comm] at h
  unfold Recommendation.span Recommendation.wantedSpan Recommendation.avoidedSpan Span.Holds
  dsimp only
  rcases begins_cases h with ⟨back, rfl, husing⟩ | ⟨inner, rfl, -⟩
  · obtain ⟨back, rfl, hwanting⟩ := huse.begins_behind (by simp) hopens husing
    rcases begins_cases hwanting with ⟨back, rfl, hbridging⟩ | ⟨inner, rfl, -⟩
    · obtain ⟨back, rfl, havoiding⟩ := hbridge.begins_behind hopens hbridging
      rcases begins_cases havoiding with ⟨back, rfl, -⟩ | ⟨inner, rfl, -⟩
      · right; right; right
        simp only [List.length_append]
        omega
      · right; right; left
        simp only [List.length_append, List.length_cons]
        omega
    · right; left
      simp only [List.length_append, List.length_cons]
      omega
  · left
    rw [List.length_append, List.length_cons]
    omega

theorem exists_opening {spelt : List Char} (hspells : Spells spelt keyword)
    (hkeyword : ∃ pair ∈ openings, [pair.1, pair.2] <+: keyword.toList.map foldCase)
    (rest : List Char) :
    ∃ c d more, spelt ++ rest = c :: d :: more ∧ (foldCase c, foldCase d) ∈ openings := by
  obtain ⟨⟨a, b⟩, hpair, more, hmore⟩ := hkeyword
  rw [← hspells] at hmore
  obtain ⟨c, text, rfl, rfl, htext⟩ := List.map_eq_cons_iff.mp hmore.symm
  obtain ⟨d, text, rfl, rfl, -⟩ := List.map_eq_cons_iff.mp htext
  exact ⟨c, d, _, rfl, hpair⟩

theorem IsNegation.exists_head (h : IsNegation part) (rest : List Char) :
    ∃ c d more, part ++ rest = c :: d :: more ∧ (foldCase c, foldCase d) ∈ openings := by
  cases h with
  | contracted hdon =>
    rw [List.append_assoc]
    exact exists_opening hdon (by decide) _
  | spaced hverb =>
    obtain ⟨hspells, -, -⟩ := hverb
    rw [List.append_assoc, List.append_assoc]
    exact exists_opening hspells (by decide) _
  | never hadverb =>
    obtain ⟨hspells, -, -⟩ := hadverb
    rw [List.append_assoc]
    exact exists_opening hspells (by decide) _

theorem IsNegation.foldCase_ne (h : IsNegation part) : ∀ c ∈ part, foldCase c ≠ 'u' := by
  cases h with
  | contracted hdon hapostrophe ht =>
    rw [List.forall_mem_append, List.forall_mem_append]
    refine ⟨fun c hc hfold => ?_, ?_, ht.foldCase_ne (by decide) (by decide)⟩
    · exact absurd (hfold ▸ hdon.foldCase_mem hc) (by decide)
    · simp only [List.mem_cons, List.not_mem_nil, or_false] at hapostrophe
      rcases hapostrophe with rfl | rfl | rfl <;> simp <;> decide
  | spaced hverb hadverb =>
    rw [List.forall_mem_append]
    exact ⟨hverb.foldCase_ne (by decide) (by decide), hadverb.foldCase_ne (by decide) (by decide)⟩
  | never hadverb => exact hadverb.foldCase_ne (by decide) (by decide)

/-- Only at its beginning does a `u` stand in the word `use` and the blanks behind it. -/
theorem Spaced.eq_nil_of_use {inner : List Char} (h : Spaced "use" (front ++ c :: inner))
    (hc : foldCase c = 'u') : front = [] := by
  generalize hpart : front ++ c :: inner = part at h
  obtain ⟨hspells, -, hblank⟩ := h
  rename_i spelt gap
  have hspelt : spelt.map foldCase = ['u', 's', 'e'] := hspells.trans (by decide)
  obtain ⟨first, tail, rfl, -, htail⟩ := List.map_eq_cons_iff.mp hspelt
  cases front with
  | nil => rfl
  | cons d front =>
    obtain ⟨-, hrest⟩ := List.cons.inj hpart
    have hmem : c ∈ tail ++ gap := by
      change _ = tail ++ gap at hrest
      rw [← hrest]
      exact List.mem_append_right _ List.mem_cons_self
    rcases List.mem_append.mp hmem with hc' | hc'
    · have hfold : foldCase c ∈ ['s', 'e'] := htail ▸ List.mem_map_of_mem hc'
      rw [hc] at hfold
      exact absurd hfold (by decide)
    · have hblank' := List.all_eq_true.mp hblank c hc'
      rw [isBlank_of_foldCase hc (by decide)] at hblank'
      exact absurd hblank' (by simp)

/-- A recommendation begins before a prohibition or behind it, at its `use`, or in the package name
of it. -/
theorem Prohibition.begins_in_token (sentence : Prohibition line) (hc : foldCase c = 'u')
    (h : front ++ c :: text = line) :
    front.length < sentence.span.start ∨ front.length = sentence.useStart ∨
      sentence.forbiddenSpan.Holds front.length ∨ sentence.span.stop ≤ front.length := by
  obtain ⟨before, part, negation, use, forbidden, ⟨rest, hline⟩,
    ⟨rfl, hnegation, huse, -⟩⟩ := sentence
  rw [← hline, List.append_assoc, List.append_assoc, List.append_assoc, eq_comm] at h
  unfold Prohibition.span Prohibition.useStart Prohibition.forbiddenSpan Span.Holds
  dsimp only
  rcases begins_cases h with ⟨back, rfl, hnegating⟩ | ⟨inner, rfl, -⟩
  · rcases begins_cases hnegating with ⟨back, rfl, husing⟩ | ⟨inner, rfl, -⟩
    · rcases begins_cases husing with ⟨back, rfl, hforbidding⟩ | ⟨inner, rfl, -⟩
      · right; right
        simp only [List.length_append]
        omega
      · obtain rfl := huse.eq_nil_of_use hc
        right; left
        rw [List.append_nil]
    · exact absurd hc (hnegation.foldCase_ne c (by simp))
  · left
    rw [List.length_append, List.length_cons]
    omega

/-- A recommendation and a prohibition stand apart, or share the word `use`, or one of them begins
in a package name of the other. -/
theorem overlap_cases (recommendation : Recommendation line) (prohibition : Prohibition line) :
    recommendation.span.Apart prohibition.span ∨
      recommendation.span.start = prohibition.useStart ∨
      prohibition.forbiddenSpan.Holds recommendation.span.start ∨
      recommendation.wantedSpan.Holds prohibition.span.start ∨
      recommendation.avoidedSpan.Holds prohibition.span.start := by
  obtain ⟨c, text, hrecommended, hc⟩ : ∃ c text,
      recommendation.front ++ c :: text = line ∧ foldCase c = 'u' := by
    obtain ⟨rest, hline⟩ := recommendation.isPrefix
    obtain ⟨c, more, huse, hc⟩ :=
      recommendation.parts.use_spaced.exists_head (show _ = some 'u' by decide)
    rw [recommendation.parts.part_eq, huse, List.append_assoc] at hline
    exact ⟨c, _, hline, hc⟩
  obtain ⟨d, e, others, hprohibited, hopens⟩ : ∃ d e text,
      prohibition.front ++ d :: e :: text = line ∧ (foldCase d, foldCase e) ∈ openings := by
    obtain ⟨rest, hline⟩ := prohibition.isPrefix
    obtain ⟨d, e, more, hhead, hopens⟩ := prohibition.parts.negation_spells.exists_head
      (prohibition.use ++ prohibition.forbidden ++ rest)
    rw [prohibition.parts.part_eq, List.append_assoc, List.append_assoc, hhead] at hline
    exact ⟨d, e, more, hline, hopens⟩
  rcases prohibition.begins_in_token hc hrecommended with hbefore | huse | hforbidden | hbehind
  · rcases recommendation.begins_in_token hopens hprohibited with hearlier | htoken | htoken | hstop
    · exact absurd hbefore (Nat.lt_asymm hearlier)
    · exact .inr (.inr (.inr (.inl htoken)))
    · exact .inr (.inr (.inr (.inr htoken)))
    · exact .inl (.inl hstop)
  · exact .inr (.inl huse)
  · exact .inr (.inr (.inl hforbidden))
  · exact .inl (.inr hbehind)

end Beginnings

/-! ## 2. What a line recommends and forbids -/

/-- The package that a token names. -/
def nameOf (raw : List Char) : String :=
  String.ofList (cleanToken raw)

variable {source : Path} {number : Nat} {rule : MinedRule}

theorem mem_mineLine : rule ∈ mineLine source number line ↔
    ∃ sentence, ∃ demand ∈ demandsOf line sentence, ruleOf source number demand = some rule := by
  change rule ∈ (demands line).filterMap (ruleOf source number) ↔ _
  simp only [demands_eq, List.mem_filterMap, List.mem_flatMap, Sentence.mem_all, true_and]
  constructor
  · rintro ⟨demand, ⟨sentence, hdemand⟩, hrule⟩
    exact ⟨sentence, demand, hdemand, hrule⟩
  · rintro ⟨sentence, demand, hdemand, hrule⟩
    exact ⟨demand, ⟨sentence, hdemand⟩, hrule⟩

theorem exists_recommendation {hit : Hit (List Char × List Char)}
    (h : hit ∈ insteadOf.findAll line) : ∃ sentence : Recommendation line,
      sentence.wanted = hit.value.1 ∧ sentence.avoided = hit.value.2 ∧
        sentence.span = ⟨hit.start.offset, hit.stop.offset⟩ := by
  obtain ⟨front, part, hprefix, ⟨use, bridge, hparts⟩, hstart, hstop⟩ :=
    consumes_insteadOf.exists_of_mem_findAll h
  exact ⟨⟨front, part, use, _, bridge, _, hprefix, hparts⟩, rfl, rfl, by rw [hstart, hstop]; rfl⟩

theorem exists_prohibition {hit : Hit (List Char)} (h : hit ∈ neverUse.findAll line) :
    ∃ sentence : Prohibition line, sentence.forbidden = hit.value := by
  obtain ⟨front, part, hprefix, ⟨negation, use, hparts⟩, -, -⟩ :=
    consumes_neverUse.exists_of_mem_findAll h
  exact ⟨⟨front, part, negation, use, _, hprefix, hparts⟩, rfl⟩

/-- A rule that offers a package comes from a recommendation of it. -/
theorem exists_of_offers {package : String} (h : rule ∈ mineLine source number line)
    (hkind : rule.kind = .avoid (some package)) :
    ∃ hit ∈ insteadOf.findAll line, nameOf hit.value.1 = package ∧
      nameOf hit.value.2 = rule.pattern := by
  obtain ⟨sentence, ⟨kind, raw⟩, hdemand, hrule⟩ := mem_mineLine.mp h
  obtain ⟨-, rfl⟩ := ruleOf_eq_some.mp hrule
  obtain rfl : kind = .avoid (some package) := hkind
  cases sentence <;> simp only [demandsOf, List.mem_map, Prod.mk.injEq, reduceCtorEq, false_and,
    and_false, exists_false, RuleKind.avoid.injEq, Option.some.injEq] at hdemand
  obtain ⟨hit, hhit, hpackage, rfl⟩ := hdemand
  exact ⟨hit, hhit, hpackage, rfl⟩

/-- A rule that says to avoid a package comes from a recommendation of another or from a
prohibition. -/
theorem exists_of_isAvoid (h : rule ∈ mineLine source number line) (havoid : rule.isAvoid = true) :
    (∃ hit ∈ insteadOf.findAll line, nameOf hit.value.2 = rule.pattern) ∨
      ∃ hit ∈ neverUse.findAll line, nameOf hit.value = rule.pattern := by
  obtain ⟨sentence, ⟨kind, raw⟩, hdemand, hrule⟩ := mem_mineLine.mp h
  obtain ⟨-, rfl⟩ := ruleOf_eq_some.mp hrule
  cases sentence <;> obtain ⟨hit, hhit, heq⟩ := List.mem_map.mp hdemand <;> cases heq
  · exact .inl ⟨hit, hhit, rfl⟩
  · exact .inr ⟨hit, hhit, rfl⟩
  · exact absurd havoid (by simp [MinedRule.isAvoid])
  · exact absurd havoid (by simp [MinedRule.isAvoid])

/-- How a line comes to forbid a package that a sentence of it recommends. -/
inductive Contradicts (package : String) (sentence : Recommendation line) : Prop
  /-- `use X instead of X`. -/
  | itself (avoids : nameOf sentence.avoided = package)
  | recommendation (other : Recommendation line) (avoids : nameOf other.avoided = package)
      (apart : sentence.span.Apart other.span)
  | prohibition (other : Prohibition line) (forbids : nameOf other.forbidden = package)
      (apart : sentence.span.Apart other.span)
  /-- The recommendation itself is negated. -/
  | negated (other : Prohibition line) (forbids : nameOf other.forbidden = package)
      (use_eq : sentence.span.start = other.useStart)
  /-- One of the sentences begins in a package name of the other. -/
  | nested (other : Prohibition line) (forbids : nameOf other.forbidden = package)
      (holds : other.forbiddenSpan.Holds sentence.span.start ∨
        sentence.wantedSpan.Holds other.span.start ∨
        sentence.avoidedSpan.Holds other.span.start)

theorem exists_contradicts {offer ban : MinedRule} {package : String}
    (hoffer : offer ∈ mineLine source number line) (hoffers : offer.kind = .avoid (some package))
    (hban : ban ∈ mineLine source number line) (havoid : ban.isAvoid = true)
    (hpattern : ban.pattern = package) :
    ∃ sentence : Recommendation line, nameOf sentence.wanted = package ∧
      nameOf sentence.avoided = offer.pattern ∧ Contradicts package sentence := by
  obtain ⟨hit, hhit, rfl, hoffered⟩ := exists_of_offers hoffer hoffers
  obtain ⟨sentence, hwanted, havoided, hspan⟩ := exists_recommendation hhit
  refine ⟨sentence, by rw [hwanted], by rw [havoided, hoffered], ?_⟩
  rcases exists_of_isAvoid hban havoid with ⟨other, hother, hname⟩ | ⟨other, hother, hname⟩
  · obtain ⟨second, -, hforbids, hspan'⟩ := exists_recommendation hother
    rw [hpattern] at hname
    by_cases hsame : hit = other
    · subst hsame
      exact .itself (by rw [havoided, hname])
    · refine .recommendation second (by rw [hforbids, hname]) ?_
      rw [hspan, hspan']
      exact apart_of_mem_findAll (consumes_insteadOf.imp fun _ _ _ => Nat.zero_le _) hhit hother
        hsame
  · obtain ⟨second, hforbids⟩ := exists_prohibition hother
    have hforbids' : nameOf second.forbidden = nameOf hit.value.1 := by
      rw [hforbids, hname, hpattern]
    rcases overlap_cases sentence second with hcase | hcase | hcase | hcase | hcase
    · exact .prohibition second hforbids' hcase
    · exact .negated second hforbids' hcase
    · exact .nested second hforbids' (.inl hcase)
    · exact .nested second hforbids' (.inr (.inl hcase))
    · exact .nested second hforbids' (.inr (.inr hcase))

/-! ## 3. A negated recommendation -/

theorem isWordChar_of_foldCase {c : Char} (h : foldCase c ∈ ['d', 'n', 'u']) :
    isWordChar c = true := by
  have hascii : ∀ code < 128, foldCase (Char.ofNat code) ∈ ['d', 'n', 'u'] →
      isWordChar (Char.ofNat code) = true := by decide +kernel
  by_cases hcode : c.toNat < 128
  · have hc := hascii _ hcode
    rw [Char.ofNat_toNat] at hc
    exact hc h
  · exfalso
    have hlower : lowerAscii c = c := by
      rw [lowerAscii, if_neg]
      rw [Bool.and_eq_true, decide_eq_true_eq, decide_eq_true_eq]
      rintro ⟨-, hle⟩
      exact hcode (Nat.lt_of_le_of_lt hle (by decide))
    have hne : c ∉ ['d', 'n', 'u'] := by
      intro hmem
      simp only [List.mem_cons, List.not_mem_nil, or_false] at hmem
      rcases hmem with rfl | rfl | rfl <;> exact hcode (by decide)
    unfold foldCase at h
    split at h
    · exact absurd h (by decide)
    · split at h
      · exact absurd h (by decide)
      · exact hne (hlower ▸ h)

variable {use wanted bridge avoided rest : List Char}

theorem isWordBoundary_of_head {cursor : Cursor} {c : Char}
    (hprevious : ∀ d ∈ cursor.previous, isBlank d = true) (hrest : cursor.rest.head? = some c)
    (hc : foldCase c ∈ ['d', 'n', 'u']) : cursor.isWordBoundary = true := by
  have hbefore : cursor.previous.any isWordChar = false := by
    cases hcursor : cursor.previous with
    | none => rfl
    | some d => exact isWordChar_of_isBlank (hprevious d hcursor)
  rw [Cursor.isWordBoundary, hbefore, hrest, Option.any_some, isWordChar_of_foldCase hc]
  rfl

theorem IsProhibition.exists_hit {negated : List Char} (h : IsProhibition part negated use wanted)
    (hrest : ∀ c ∈ rest.head?, isTokenChar c = false) :
    ∃ hit ∈ neverUse.findAll (part ++ rest), hit.value = wanted := by
  have hboundary : (Cursor.ofText (part ++ rest)).isWordBoundary = true := by
    obtain ⟨c, d, more, hhead, hopens⟩ := h.negation_spells.exists_head (use ++ wanted ++ rest)
    refine isWordBoundary_of_head (c := c) (by rintro _ ⟨⟩) ?_ ?_
    · rw [Cursor.ofText, h.part_eq, List.append_assoc, hhead]
      rfl
    · simp only [openings, List.mem_cons, Prod.mk.injEq, List.not_mem_nil, or_false] at hopens
      rcases hopens with ⟨hc, -⟩ | ⟨hc, -⟩ <;> simp [hc]
  have hread : neverUse (Cursor.ofText (part ++ rest)) =
      some (wanted, (Cursor.ofText (part ++ rest)).behind part) := by
    rw [neverUse_eq, wordBoundary, assert_bind hboundary]
    exact h.reads hrest _ rfl
  exact ⟨_, mem_findAll_of_find? (find?_of_ofText hread), rfl⟩

theorem IsNegation.isBlank_of_mem_getLast? (h : IsNegation part) :
    ∀ c ∈ part.getLast?, isBlank c = true := by
  have hspaced {keyword : String} {text : List Char} (h : Spaced keyword text)
      (front : List Char) : ∀ c ∈ (front ++ text).getLast?, isBlank c = true := by
    obtain ⟨-, hne, hblank⟩ := h
    rename_i gap
    intro c hc
    rw [← List.append_assoc, List.getLast?_append_of_ne_nil _ hne] at hc
    exact List.all_eq_true.mp hblank c (List.mem_of_getLast? hc)
  cases h with
  | contracted hdon hapostrophe ht =>
    rw [← List.append_assoc]
    exact hspaced ht _
  | spaced hverb hadverb => exact hspaced hadverb _
  | never hadverb => exact hspaced hadverb []

/-- A recommendation behind a negation is found like any other: nothing looks at what stands before
its `use`. -/
theorem IsRecommendation.exists_hit {front : List Char} (hfront : IsNegation front)
    (h : IsRecommendation part use wanted bridge avoided)
    (hrest : ∀ c ∈ rest.head?, isTokenChar c = false) :
    ∃ hit ∈ insteadOf.findAll (front ++ (part ++ rest)), hit.value = (wanted, avoided) := by
  have hcursor : ((Cursor.ofText (front ++ (part ++ rest))).behind front).rest = part ++ rest :=
    Cursor.rest_behind rfl
  have hboundary :
      ((Cursor.ofText (front ++ (part ++ rest))).behind front).isWordBoundary = true := by
    obtain ⟨c, more, huse, hc⟩ := h.use_spaced.exists_head (show _ = some 'u' by decide)
    refine isWordBoundary_of_head (c := c) ?_ ?_ (by simp [hc])
    · intro d hd
      rw [Cursor.behind, Cursor.ofText, Option.or_none] at hd
      exact hfront.isBlank_of_mem_getLast? d hd
    · rw [hcursor, h.part_eq, huse]
      rfl
  have hread : insteadOf ((Cursor.ofText (front ++ (part ++ rest))).behind front) =
      some ((wanted, avoided), ((Cursor.ofText (front ++ (part ++ rest))).behind front).behind
        part) := by
    rw [insteadOf, wordBoundary, assert_bind hboundary]
    exact h.reads hrest _ hcursor
  have hskipped (before : List Char) (c : Char) (back : List Char)
      (hsplit : front = before ++ c :: back) :
      insteadOf.Fails (c :: back ++ (part ++ rest)) := by
    refine fails_assert_bind _ (Fails.bind (Fails.bind ?_ _) _)
    refine fails_word_of_head (show _ = some 'u' by decide) ?_
    rintro _ ⟨⟩
    exact hfront.foldCase_ne c (by simp [hsplit])
  exact ⟨_, mem_findAll_of_find? (findFrom?_behind rfl hskipped hread), rfl⟩

variable {front : List Char}

/-- A negated recommendation forbids what it names first. -/
theorem mem_mineLine_of_negated (hfront : IsNegation front)
    (hpart : IsRecommendation part use wanted bridge avoided) (hwanted : cleanToken wanted ≠ [])
    (source : Path) (number : Nat) (rest : List Char) :
    ⟨.avoid none, nameOf wanted, source, number⟩ ∈
      mineLine source number (front ++ (part ++ rest)) := by
  have hprohibition : IsProhibition (front ++ (use ++ wanted)) front use wanted :=
    ⟨rfl, hfront, hpart.use_spaced, hpart.wanted_token⟩
  obtain ⟨hit, hhit, hvalue⟩ :=
    hprohibition.exists_hit (hpart.bridge_spells.isTokenChar_head (avoided ++ rest))
  have hline : front ++ (use ++ wanted) ++ (bridge ++ (avoided ++ rest)) =
      front ++ (part ++ rest) := by
    simp only [hpart.part_eq, List.append_assoc]
  rw [hline] at hhit
  refine mem_mineLine.mpr ⟨.neverUse, (.avoid none, wanted), ?_, ruleOf_eq_some.mpr ⟨hwanted, rfl⟩⟩
  exact List.mem_map.mpr ⟨hit, hhit, by rw [hvalue]⟩

/-- It recommends it too. -/
theorem offer_mem_mineLine_of_negated (hfront : IsNegation front)
    (hpart : IsRecommendation part use wanted bridge avoided) (havoided : cleanToken avoided ≠ [])
    (hrest : ∀ c ∈ rest.head?, isTokenChar c = false) (source : Path) (number : Nat) :
    ⟨.avoid (some (nameOf wanted)), nameOf avoided, source, number⟩ ∈
      mineLine source number (front ++ (part ++ rest)) := by
  obtain ⟨hit, hhit, hvalue⟩ := hpart.exists_hit hfront hrest
  refine mem_mineLine.mpr ⟨.insteadOf, (.avoid (some (nameOf wanted)), avoided), ?_,
    ruleOf_eq_some.mpr ⟨havoided, rfl⟩⟩
  refine List.mem_map.mpr ⟨hit, hhit, ?_⟩
  rw [hvalue]
  rfl

theorem mem_mine {text : String} : rule ∈ mine source text ↔
    ∃ line, (rule.line, line) ∈ numbered (lines text.toList) ∧
      rule ∈ mineLine source rule.line line := by
  constructor
  · intro h
    obtain ⟨⟨number, line⟩, hline, hrule⟩ := List.mem_flatMap.mp h
    have hnumber : rule.line = number := by
      obtain ⟨sentence, demand, -, hdemand⟩ := mem_mineLine.mp hrule
      obtain ⟨-, rfl⟩ := ruleOf_eq_some.mp hdemand
      rfl
    exact ⟨line, hnumber ▸ hline, hnumber ▸ hrule⟩
  · rintro ⟨line, hline, hrule⟩
    exact List.mem_flatMap.mpr ⟨_, hline, hrule⟩

/-- A line that negates `use X instead of Y` forbids X, and it recommends X over Y.  No other single
sentence recommends a package and forbids it, but for `use X instead of X` and for one that begins
inside a package name of another. -/
theorem negated_sentences (source : Path) (text : String) :
    (∀ (number : Nat) (front part use wanted bridge avoided rest : List Char),
      (number, front ++ (part ++ rest)) ∈ numbered (lines text.toList) → IsNegation front →
      IsRecommendation part use wanted bridge avoided →
      (∀ c ∈ rest.head?, isTokenChar c = false) →
        (cleanToken wanted ≠ [] →
          ⟨.avoid none, nameOf wanted, source, number⟩ ∈ mine source text) ∧
        (cleanToken avoided ≠ [] →
          ⟨.avoid (some (nameOf wanted)), nameOf avoided, source, number⟩ ∈ mine source text)) ∧
    ∀ offer ∈ mine source text, ∀ ban ∈ mine source text, offer.line = ban.line →
      offer.kind = .avoid (some ban.pattern) → ban.isAvoid = true →
        ∃ line, (offer.line, line) ∈ numbered (lines text.toList) ∧
          ∃ sentence : Recommendation line, nameOf sentence.wanted = ban.pattern ∧
            nameOf sentence.avoided = offer.pattern ∧ Contradicts ban.pattern sentence := by
  refine ⟨?_, ?_⟩
  · intro number front part use wanted bridge avoided rest hline hfront hpart hrest
    refine ⟨fun hwanted => ?_, fun havoided => ?_⟩
    · exact mem_mine.mpr ⟨_, hline, mem_mineLine_of_negated hfront hpart hwanted source number rest⟩
    · exact mem_mine.mpr ⟨_, hline,
        offer_mem_mineLine_of_negated hfront hpart havoided hrest source number⟩
  · intro offer hoffer ban hban hsame hkind havoid
    obtain ⟨line, hline, hofferLine⟩ := mem_mine.mp hoffer
    obtain ⟨other, hother, hbanLine⟩ := mem_mine.mp hban
    rw [← hsame] at hother hbanLine
    obtain rfl := eq_of_mem_numbered hline hother
    exact ⟨line, hline, exists_contradicts hofferLine hkind hbanLine havoid rfl⟩

theorem negated_sentences_dayjs :
    IsNegation ("DON".toList ++ (['’'] ++ ("T".toList ++ [' ']))) ∧
    IsRecommendation "Use `moment` instead of `dayjs`".toList ("Use".toList ++ [' '])
      "`moment`".toList ([' '] ++ (("instead".toList ++ [' ']) ++ ("of".toList ++ [' '])))
      "`dayjs`".toList ∧
    (let rules := mine ⟨"CLAUDE.md"⟩ "DON’T Use `moment` instead of `dayjs`, please."
    ⟨.avoid none, "moment", ⟨"CLAUDE.md"⟩, 1⟩ ∈ rules ∧
      ⟨.avoid (some "moment"), "dayjs", ⟨"CLAUDE.md"⟩, 1⟩ ∈ rules ∧
      ∃ line, ∃ sentence : Recommendation line, nameOf sentence.avoided = "dayjs" ∧
        Contradicts "moment" sentence) := by
  have hnegation : IsNegation ("DON".toList ++ (['’'] ++ ("T".toList ++ [' ']))) :=
    .contracted (by decide) (by decide) (.intro (by decide) (by decide) (by decide))
  have hbridge :
      IsBridge ([' '] ++ (("instead".toList ++ [' ']) ++ ("of".toList ++ [' ']))) :=
    .intro (by decide) (by decide) (.intro (by decide) (by decide) (by decide))
      (.intro (by decide) (by decide) (by decide))
  have hmoment : IsToken (['`'] ++ ("moment".toList ++ ['`'])) := .quoted (by decide) (by decide)
  have hdayjs : IsToken (['`'] ++ ("dayjs".toList ++ ['`'])) := .quoted (by decide) (by decide)
  have hpart : IsRecommendation "Use `moment` instead of `dayjs`".toList ("Use".toList ++ [' '])
      "`moment`".toList ([' '] ++ (("instead".toList ++ [' ']) ++ ("of".toList ++ [' '])))
      "`dayjs`".toList :=
    ⟨by decide, .intro (by decide) (by decide) (by decide), hmoment, hbridge, hdayjs⟩
  obtain ⟨hrules, hcontradicts⟩ := negated_sentences ⟨"CLAUDE.md"⟩
    "DON’T Use `moment` instead of `dayjs`, please."
  have hrest : ∀ c ∈ ", please.".toList.head?, isTokenChar c = false := by
    intro c hc
    obtain rfl : ',' = c := Option.some.inj hc
    decide
  obtain ⟨hban, hoffer⟩ :=
    hrules 1 _ _ _ _ _ _ ", please.".toList (by decide) hnegation hpart hrest
  have hoffered := hoffer (by decide)
  have hbanned := hban (by decide)
  obtain ⟨line, -, sentence, -, havoided, hsentence⟩ :=
    hcontradicts _ hoffered _ hbanned rfl rfl rfl
  exact ⟨hnegation, hpart, hbanned, hoffered, line, sentence, havoided, hsentence⟩

/-- The replacement that the sentence forbids is offered for the package that it asks for. -/
theorem mine_negated_recommendation :
    mine ⟨"CLAUDE.md"⟩ "Never use moment instead of dayjs." =
      [⟨.avoid (some "moment"), "dayjs", ⟨"CLAUDE.md"⟩, 1⟩,
        ⟨.avoid none, "moment", ⟨"CLAUDE.md"⟩, 1⟩] := by decide

end Scrutiny.Rules
