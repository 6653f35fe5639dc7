import Mathlib.Data.List.Pairwise
import Scrutiny.Detect.Rules
import Scrutiny.Proofs.Firsts
import Scrutiny.Proofs.Text.Lines
import Scrutiny.Proofs.Text.Matcher

/-!
Which rules of the documents are enforced, and on what a check reports.  Rules have places in the
documents; of those that say to avoid the same package only the first is enforced, and a file that
imports the package is reported once, for that rule.
-/

namespace Scrutiny.Rules

open Text Matcher

/-! ## 1. Places of rules -/

/-- The kinds of sentences that rules are read from. -/
inductive Sentence
  | insteadOf
  | neverUse
  | preferOver
  | alwaysUse
  deriving DecidableEq

namespace Sentence

def all : List Sentence :=
  [insteadOf, neverUse, preferOver, alwaysUse]

theorem mem_all (sentence : Sentence) : sentence ∈ all := by
  cases sentence <;> decide

/-- The order of the kinds on one line. -/
def rank : Sentence → Nat
  | insteadOf => 0
  | neverUse => 1
  | preferOver => 2
  | alwaysUse => 3

end Sentence

/-- What the sentences of one kind on a line demand, and the packages they are about. -/
def demandsOf (line : List Char) : Sentence → List (RuleKind × List Char)
  | .insteadOf => (insteadOf.findAll line).map fun hit =>
      (.avoid (some (String.ofList (cleanToken hit.value.1))), hit.value.2)
  | .neverUse => (neverUse.findAll line).map fun hit => (.avoid none, hit.value)
  | .preferOver => (preferOver.findAll line).map fun hit =>
      (.prefer (String.ofList (cleanToken hit.value.2)), hit.value.1)
  | .alwaysUse => (alwaysUse.findAll line).map fun hit => (.always, hit.value)

/-- Where a sentence stands: in which document, on which line of it, and which one it is of its
kind there.  All of them count from one. -/
structure Place where
  document : Nat
  line : Nat
  sentence : Sentence
  index : Nat

namespace Place

/-- The order in which sentences are read. -/
def Before (a b : Place) : Prop :=
  a.document < b.document ∨ a.document = b.document ∧ (a.line < b.line ∨ a.line = b.line ∧
    (a.sentence.rank < b.sentence.rank ∨
      a.sentence.rank = b.sentence.rank ∧ a.index < b.index))

theorem Before.asymm {a b : Place} (h : a.Before b) : ¬ b.Before a := by
  unfold Before at *
  omega

end Place

/-- The sentence at the place gives the rule. -/
inductive MinedAt (documents : List (Path × String)) : Place → MinedRule → Prop
  | intro {document line index : Nat} {sentence : Sentence} {source : Path} {text : String}
      {content raw : List Char} {kind : RuleKind}
      (document_mem : (document, source, text) ∈ numbered documents)
      (line_mem : (line, content) ∈ numbered (lines text.toList))
      (demand_mem : (index, kind, raw) ∈ numbered (demandsOf content sentence))
      (token_ne_nil : cleanToken raw ≠ []) :
      MinedAt documents ⟨document, line, sentence, index⟩
        ⟨kind, String.ofList (cleanToken raw), source, line⟩

/-- The rule of a demand on a line. -/
def ruleOf (source : Path) (number : Nat) (demand : RuleKind × List Char) : Option MinedRule :=
  let pattern := cleanToken demand.2
  if pattern.isEmpty then none else some ⟨demand.1, String.ofList pattern, source, number⟩

/-- The rules of the sentences of one kind on a line, with their places. -/
def placedBySentence (document : Nat) (source : Path) (line : Nat) (content : List Char)
    (sentence : Sentence) : List (Place × MinedRule) :=
  (numbered (demandsOf content sentence)).filterMap fun item =>
    (ruleOf source line item.2).map fun rule => (⟨document, line, sentence, item.1⟩, rule)

def placedOnLine (document : Nat) (source : Path) (line : Nat) (content : List Char) :
    List (Place × MinedRule) :=
  Sentence.all.flatMap (placedBySentence document source line content)

def placedInDocument (document : Nat) (source : Path) (text : String) : List (Place × MinedRule) :=
  (numbered (lines text.toList)).flatMap fun line =>
    placedOnLine document source line.1 line.2

/-- The rules of the documents with their places, in the order in which they are read. -/
def placed (documents : List (Path × String)) : List (Place × MinedRule) :=
  (numbered documents).flatMap fun document =>
    placedInDocument document.1 document.2.1 document.2.2

theorem ruleOf_eq_some {source : Path} {number : Nat} {demand : RuleKind × List Char}
    {rule : MinedRule} : ruleOf source number demand = some rule ↔
      cleanToken demand.2 ≠ [] ∧
        ⟨demand.1, String.ofList (cleanToken demand.2), source, number⟩ = rule := by
  simp [ruleOf]

theorem demands_eq (line : List Char) : demands line = Sentence.all.flatMap (demandsOf line) := by
  simp [demands, Sentence.all, demandsOf]

theorem map_snd_placedBySentence (document : Nat) (source : Path) (line : Nat)
    (content : List Char) (sentence : Sentence) :
    (placedBySentence document source line content sentence).map Prod.snd =
      (demandsOf content sentence).filterMap (ruleOf source line) := by
  rw [placedBySentence, List.map_filterMap]
  conv_rhs => rw [← map_snd_numbered (demandsOf content sentence), List.filterMap_map]
  refine List.filterMap_congr fun item _ => ?_
  rw [Option.map_map]
  exact Option.map_id'

theorem map_snd_placedOnLine (document : Nat) (source : Path) (line : Nat) (content : List Char) :
    (placedOnLine document source line content).map Prod.snd = mineLine source line content := by
  change _ = (demands content).filterMap (ruleOf source line)
  rw [placedOnLine, List.map_flatMap, demands_eq, List.filterMap_flatMap]
  exact List.flatMap_congr fun sentence _ => map_snd_placedBySentence _ _ _ _ _

theorem map_snd_placedInDocument (document : Nat) (source : Path) (text : String) :
    (placedInDocument document source text).map Prod.snd = mine source text := by
  rw [placedInDocument, List.map_flatMap]
  exact List.flatMap_congr fun line _ => map_snd_placedOnLine _ _ _ _

/-- Without their places they are the rules of the documents. -/
theorem map_snd_placed (documents : List (Path × String)) :
    (placed documents).map Prod.snd = mineAll documents := by
  rw [placed, List.map_flatMap, mineAll]
  conv_rhs => rw [← map_snd_numbered documents, List.flatMap_map]
  exact List.flatMap_congr fun document _ => map_snd_placedInDocument _ _ _

variable {documents : List (Path × String)} {item : Place × MinedRule} {document line : Nat}
  {source : Path} {content : List Char} {sentence : Sentence} {text : String}

theorem mem_placedBySentence :
    item ∈ placedBySentence document source line content sentence ↔ ∃ index demand,
      (index, demand) ∈ numbered (demandsOf content sentence) ∧
        item.1 = ⟨document, line, sentence, index⟩ ∧ ruleOf source line demand = some item.2 := by
  obtain ⟨place, rule⟩ := item
  simp only [placedBySentence, List.mem_filterMap, Option.map_eq_some_iff, Prod.mk.injEq]
  constructor
  · rintro ⟨⟨index, demand⟩, hdemand, _, hrule, rfl, rfl⟩
    exact ⟨index, demand, hdemand, rfl, hrule⟩
  · rintro ⟨index, demand, hdemand, rfl, hrule⟩
    exact ⟨(index, demand), hdemand, rule, hrule, rfl, rfl⟩

theorem mem_placed_iff {place : Place} {rule : MinedRule} :
    (place, rule) ∈ placed documents ↔ MinedAt documents place rule := by
  simp only [placed, placedInDocument, placedOnLine, List.mem_flatMap, mem_placedBySentence,
    ruleOf_eq_some]
  constructor
  · rintro ⟨⟨document, source, text⟩, hdocument, ⟨line, content⟩, hline, sentence, -, index,
      ⟨kind, raw⟩, hdemand, rfl, hne, rfl⟩
    exact .intro hdocument hline hdemand hne
  · rintro ⟨hdocument, hline, hdemand, hne⟩
    exact ⟨_, hdocument, _, hline, _, Sentence.mem_all _, _, _, hdemand, rfl, hne, rfl⟩

theorem place_of_mem_placedOnLine (h : item ∈ placedOnLine document source line content) :
    item.1.document = document ∧ item.1.line = line := by
  obtain ⟨sentence, -, hmem⟩ := List.mem_flatMap.mp h
  obtain ⟨index, demand, -, hplace, -⟩ := mem_placedBySentence.mp hmem
  rw [hplace]
  exact ⟨rfl, rfl⟩

theorem document_of_mem_placedInDocument (h : item ∈ placedInDocument document source text) :
    item.1.document = document := by
  obtain ⟨line, -, hmem⟩ := List.mem_flatMap.mp h
  exact (place_of_mem_placedOnLine hmem).1

theorem pairwise_placedBySentence (document : Nat) (source : Path) (line : Nat)
    (content : List Char) (sentence : Sentence) :
    (placedBySentence document source line content sentence).Pairwise
      fun a b => a.1.Before b.1 := by
  refine (pairwise_numbered (demandsOf content sentence)).filterMap _ fun a b hlt x hx y hy => ?_
  obtain ⟨_, -, rfl⟩ := Option.map_eq_some_iff.mp hx
  obtain ⟨_, -, rfl⟩ := Option.map_eq_some_iff.mp hy
  exact .inr ⟨rfl, .inr ⟨rfl, .inr ⟨rfl, hlt⟩⟩⟩

theorem pairwise_placedOnLine (document : Nat) (source : Path) (line : Nat)
    (content : List Char) :
    (placedOnLine document source line content).Pairwise fun a b => a.1.Before b.1 := by
  have hranks : Sentence.all.Pairwise fun a b => a.rank < b.rank := by decide
  rw [placedOnLine, List.pairwise_flatMap]
  refine ⟨fun sentence _ => pairwise_placedBySentence _ _ _ _ _,
    hranks.imp fun hlt x hx y hy => ?_⟩
  obtain ⟨_, _, -, hx, -⟩ := mem_placedBySentence.mp hx
  obtain ⟨_, _, -, hy, -⟩ := mem_placedBySentence.mp hy
  rw [hx, hy]
  exact .inr ⟨rfl, .inr ⟨rfl, .inl hlt⟩⟩

theorem pairwise_placed (documents : List (Path × String)) :
    (placed documents).Pairwise fun a b => a.1.Before b.1 := by
  rw [placed, List.pairwise_flatMap]
  refine ⟨fun document _ => ?_, (pairwise_numbered documents).imp fun hlt x hx y hy => ?_⟩
  · rw [placedInDocument, List.pairwise_flatMap]
    refine ⟨fun line _ => pairwise_placedOnLine _ _ _ _,
      (pairwise_numbered _).imp fun hlt x hx y hy => ?_⟩
    obtain ⟨hx, hxLine⟩ := place_of_mem_placedOnLine hx
    obtain ⟨hy, hyLine⟩ := place_of_mem_placedOnLine hy
    exact .inr ⟨hx.trans hy.symm, .inl (by rwa [hxLine, hyLine])⟩
  · refine .inl ?_
    rwa [document_of_mem_placedInDocument hx, document_of_mem_placedInDocument hy]

/-! ## 2. Rules that are enforced -/

theorem enforced_go_eq (seen : List String) (rules : List MinedRule) :
    enforced.go seen rules =
      firstsBy MinedRule.pattern seen (rules.filter MinedRule.isAvoid) := by
  induction rules generalizing seen with
  | nil => rfl
  | cons rule rules ih =>
    rw [enforced.go, List.filter_cons]
    by_cases havoid : rule.isAvoid = true
    · rw [if_pos havoid, firstsBy, havoid, Bool.true_and]
      by_cases hseen : seen.contains rule.pattern = true
      · rw [if_pos hseen, if_neg (by simpa using hseen), ih]
      · rw [if_neg hseen, if_pos (by simpa using hseen), ih]
    · rw [if_neg havoid, if_neg (by simp [havoid]), ih]

/-- The enforced rules with their places. -/
def enforcedAt (documents : List (Path × String)) : List (Place × MinedRule) :=
  firstsBy (fun item => item.2.pattern) []
    ((placed documents).filter fun item => item.2.isAvoid)

/-- The rules that are only listed, with their places. -/
def informationalAt (documents : List (Path × String)) : List (Place × MinedRule) :=
  (placed documents).filter fun item => !item.2.isAvoid

theorem map_snd_enforcedAt (documents : List (Path × String)) :
    (enforcedAt documents).map Prod.snd = enforced (mineAll documents) := by
  rw [enforced, enforced_go_eq, ← map_snd_placed, List.filter_map, firstsBy_map]
  rfl

theorem map_snd_informationalAt (documents : List (Path × String)) :
    (informationalAt documents).map Prod.snd = informational (mineAll documents) := by
  rw [informational, ← map_snd_placed, List.filter_map]
  rfl

/-- The rule says to avoid a package, and no sentence before the place says so of the same one. -/
structure IsEarliest (documents : List (Path × String)) (place : Place) (rule : MinedRule) :
    Prop where
  mined : MinedAt documents place rule
  isAvoid : rule.isAvoid = true
  first : ∀ earlier other, MinedAt documents earlier other → other.isAvoid = true →
    other.pattern = rule.pattern → ¬ earlier.Before place

theorem mem_avoidances_iff {place : Place} {rule : MinedRule} :
    (place, rule) ∈ (placed documents).filter (fun item => item.2.isAvoid) ↔
      MinedAt documents place rule ∧ rule.isAvoid = true := by
  rw [List.mem_filter, mem_placed_iff]

theorem mem_enforcedAt_iff {place : Place} {rule : MinedRule} :
    (place, rule) ∈ enforcedAt documents ↔ IsEarliest documents place rule := by
  have hpairs := (pairwise_placed documents).filter fun item => item.2.isAvoid
  rw [enforcedAt, mem_firstsBy_nil_of_pairwise hpairs fun _ _ => Place.Before.asymm,
    mem_avoidances_iff]
  constructor
  · rintro ⟨⟨hmined, havoid⟩, hfirst⟩
    exact ⟨hmined, havoid, fun earlier other hother hotherAvoid =>
      hfirst (earlier, other) (mem_avoidances_iff.mpr ⟨hother, hotherAvoid⟩)⟩
  · rintro ⟨hmined, havoid, hfirst⟩
    refine ⟨⟨hmined, havoid⟩, fun item hitem => ?_⟩
    obtain ⟨hother, hotherAvoid⟩ := mem_avoidances_iff.mp hitem
    exact hfirst item.1 item.2 hother hotherAvoid

/-- How a mined rule is listed. -/
inductive Listing
  | enforced
  | informational
  | repeated

/-- What it takes to be listed in each way, given the enforced rules and those only listed. -/
def IsListed (kept listed : List (Place × MinedRule)) (place : Place) (rule : MinedRule) :
    Listing → Prop
  | .enforced => (place, rule) ∈ kept
  | .informational => (place, rule) ∈ listed
  | .repeated => rule.isAvoid = true ∧
      ∃ earlier other, (earlier, other) ∈ kept ∧ earlier.Before place ∧
        other.pattern = rule.pattern

-- Of two members of a list in order one comes before the other.
theorem before_or_before {a b : Place × MinedRule} (ha : a ∈ placed documents)
    (hb : b ∈ placed documents) (hne : a ≠ b) : a.1.Before b.1 ∨ b.1.Before a.1 := by
  have hsymm : Std.Symm fun a b : Place × MinedRule => a.1.Before b.1 ∨ b.1.Before a.1 :=
    ⟨fun _ _ => Or.symm⟩
  have hpairs : (placed documents).Pairwise fun a b => a.1.Before b.1 ∨ b.1.Before a.1 :=
    (pairwise_placed documents).imp .inl
  exact hpairs.forall ha hb hne

theorem repeated_of_not_mem {place : Place} {rule : MinedRule} (h : MinedAt documents place rule)
    (havoid : rule.isAvoid = true) (hnot : (place, rule) ∉ enforcedAt documents) :
    IsListed (enforcedAt documents) (informationalAt documents) place rule .repeated := by
  have hmem := mem_avoidances_iff.mpr ⟨h, havoid⟩
  have hfirst : ∃ item ∈ enforcedAt documents, item.2.pattern = rule.pattern :=
    exists_mem_firstsBy hmem List.not_mem_nil
  obtain ⟨⟨earlier, other⟩, hkept, hpattern⟩ := hfirst
  have hearliest := mem_enforcedAt_iff.mp hkept
  have hne : (earlier, other) ≠ (place, rule) := fun heq => hnot (heq ▸ hkept)
  have horder := before_or_before (mem_placed_iff.mpr hearliest.mined) (mem_placed_iff.mpr h) hne
  have hafter := hearliest.first place rule h havoid hpattern.symm
  exact ⟨havoid, earlier, other, hkept, horder.resolve_right hafter, hpattern⟩

/-- Every mined rule is listed in exactly one way. -/
theorem existsUnique_listing {place : Place} {rule : MinedRule}
    (h : MinedAt documents place rule) :
    ∃! listing, IsListed (enforcedAt documents) (informationalAt documents) place rule listing := by
  have hlisted : (place, rule) ∈ informationalAt documents ↔ rule.isAvoid = false := by
    rw [informationalAt, List.mem_filter, mem_placed_iff, Bool.not_eq_true']
    exact and_iff_right h
  cases havoid : rule.isAvoid with
  | false =>
    refine ⟨.informational, hlisted.mpr havoid, ?_⟩
    rintro (_ | _ | _) hother
    · exact absurd (mem_enforcedAt_iff.mp hother).isAvoid (by simp [havoid])
    · rfl
    · exact absurd hother.1 (by simp [havoid])
  | true =>
    have hnot : (place, rule) ∉ informationalAt documents := by
      simp [hlisted, havoid]
    by_cases hkept : (place, rule) ∈ enforcedAt documents
    · refine ⟨.enforced, hkept, ?_⟩
      rintro (_ | _ | _) hother
      · rfl
      · exact absurd hother hnot
      · obtain ⟨-, earlier, other, hmem, hbefore, hpattern⟩ := hother
        have hother := mem_enforcedAt_iff.mp hmem
        exact absurd hbefore ((mem_enforcedAt_iff.mp hkept).first earlier other hother.mined
          hother.isAvoid hpattern)
    · refine ⟨.repeated, repeated_of_not_mem h havoid hkept, ?_⟩
      rintro (_ | _ | _) hother
      · exact absurd hother hkept
      · exact absurd hother hnot
      · rfl

/-! ## 3. Rules that are put in force -/

section Building

variable {engine : PatternEngine} {mined rules : List MinedRule} {error : AnalysisError}

theorem refused?_eq_none : refused? engine mined = none ↔
    (∀ dated ∈ substitutions, engine.refusal? dated.1 = none) ∧
      ∀ rule ∈ enforced mined, engine.refusal? rule.pattern = none := by
  rw [refused?, Option.or_eq_none_iff, List.findSome?_eq_none_iff, List.findSome?_eq_none_iff]
  simp only [Option.map_eq_none_iff]

/-- Rules can be put in force exactly if the engine takes the pattern of every package in the table
and of every package that they say to avoid. -/
theorem build_eq_ok : build engine mined = .ok rules ↔ rules = mined ∧
    (∀ dated ∈ substitutions, engine.refusal? dated.1 = none) ∧
      ∀ rule ∈ enforced mined, engine.refusal? rule.pattern = none := by
  rw [← refused?_eq_none, build]
  cases refused? engine mined with
  | none => simp [eq_comm]
  | some error => simp

theorem build_default (mined : List MinedRule) : build {} mined = .ok mined :=
  build_eq_ok.mpr ⟨rfl, fun _ _ => rfl, fun _ _ => rfl⟩

theorem detectWith_of_build (h : build engine mined = .ok rules) (scope : Scope) :
    detectWith engine mined scope =
      .ok (.ofFiles (scope.targets.filter fun file => file.path.isSource) (checkFile rules)) :=
  congrArg (Except.map _) h

theorem detectWith_of_build_error (h : build engine mined = .error error) (scope : Scope) :
    detectWith engine mined scope = .error error :=
  congrArg (Except.map _) h

/-- The error names the package, or the rule, whose pattern is refused. -/
theorem exists_of_build_eq_error (h : build engine mined = .error error) :
    (∃ dated ∈ substitutions, ∃ reason, engine.refusal? dated.1 = some reason ∧
      error = .pattern dated.1 reason) ∨
    ∃ rule ∈ enforced mined, ∃ reason, engine.refusal? rule.pattern = some reason ∧
      error = .pattern s!"avoid rule '{rule.pattern}'" reason := by
  have hrefused : refused? engine mined = some error := by
    rw [build] at h
    split at h
    next refused hrefused => rwa [Except.error.inj h] at hrefused
    next => exact absurd h (by simp)
  rw [refused?, Option.or_eq_some_iff] at hrefused
  rcases hrefused with hdated | ⟨-, hrule⟩
  · obtain ⟨dated, hmem, hreason⟩ := List.exists_of_findSome?_eq_some hdated
    obtain ⟨reason, hrefusal, rfl⟩ := Option.map_eq_some_iff.mp hreason
    exact .inl ⟨dated, hmem, reason, hrefusal, rfl⟩
  · obtain ⟨rule, hmem, hreason⟩ := List.exists_of_findSome?_eq_some hrule
    obtain ⟨reason, hrefusal, rfl⟩ := Option.map_eq_some_iff.mp hreason
    exact .inr ⟨rule, hmem, reason, hrefusal, rfl⟩

end Building

/-! ## 4. What is reported -/

/-- The package is imported behind `before`, and nowhere nearer to the beginning. -/
def IsFirstImport (package : String) (content before : List Char) : Prop :=
  before <+: content ∧ (importOf package ((Cursor.ofText content).behind before)).isSome = true ∧
    ∀ front, front <+: before → front ≠ before →
      importOf package ((Cursor.ofText content).behind front) = none

theorem exists_of_importLine? {package : String} {content : List Char} {line : Nat}
    (h : importLine? package content = some line) :
    ∃ before, IsFirstImport package content before ∧ line = before.count '\n' + 1 := by
  obtain ⟨hit, hfind, rfl⟩ := Option.map_eq_some_iff.mp h
  rw [find?_eq] at hfind
  obtain ⟨before, hbefore, hstart, hread, hnone⟩ := exists_of_findFrom? hfind
  rw [hstart] at hread
  refine ⟨before, ⟨hbefore, by rw [hread]; rfl, hnone⟩, ?_⟩
  obtain ⟨rest, hrest⟩ := hbefore
  rw [hstart, lineAt, Cursor.behind, ← show before ++ rest = content from hrest]
  simp [Cursor.ofText]

/-- The finding for the first entry of the table whose package the file imports. -/
inductive IsDated (file : SourceFile) : Option Finding → Prop
  | nothing (others : ∀ entry ∈ substitutions,
      (importOf entry.1).find? file.content.toList = none) : IsDated file none
  | entry {front back : List (String × String)} {package alternative : String}
      {before : List Char} (entries : substitutions = front ++ (package, alternative) :: back)
      (others : ∀ entry ∈ front, (importOf entry.1).find? file.content.toList = none)
      (isFirst : IsFirstImport package file.content.toList before) :
      IsDated file (some (datedFinding file.path package alternative (before.count '\n' + 1)))

/-- A rule that a file breaks, where the rule stands, and a line of the file. -/
structure Breach where
  place : Place
  rule : MinedRule
  line : Nat

/-- What a check of a file has to report. -/
structure IsReport (documents : List (Path × String)) (file : SourceFile) (dated : Option Finding)
    (breaches : List Breach) : Prop where
  isDated : IsDated file dated
  pairwise : breaches.Pairwise fun a b => a.rule.pattern ≠ b.rule.pattern
  complete : ∀ pattern, (∃ breach ∈ breaches, breach.rule.pattern = pattern) ↔
    (∃ place rule, MinedAt documents place rule ∧ rule.isAvoid = true ∧ rule.pattern = pattern) ∧
      ((importOf pattern).find? file.content.toList).isSome = true
  isEarliest : ∀ breach ∈ breaches, IsEarliest documents breach.place breach.rule
  line : ∀ breach ∈ breaches, ∃ before,
    IsFirstImport breach.rule.pattern file.content.toList before ∧
      breach.line = before.count '\n' + 1

theorem importLine?_eq_none {package : String} {content : List Char} :
    importLine? package content = none ↔ (importOf package).find? content = none :=
  Option.map_eq_none_iff

theorem isDated_findSome? (file : SourceFile) :
    IsDated file (substitutions.findSome? fun (package, alternative) =>
      (importLine? package file.content.toList).map
        (datedFinding file.path package alternative)) := by
  cases hfound : substitutions.findSome? fun (package, alternative) =>
      (importLine? package file.content.toList).map
        (datedFinding file.path package alternative) with
  | none =>
    rw [List.findSome?_eq_none_iff] at hfound
    refine .nothing fun entry hentry => ?_
    exact importLine?_eq_none.mp (Option.map_eq_none_iff.mp (hfound entry hentry))
  | some finding =>
    obtain ⟨front, ⟨package, alternative⟩, back, hsplit, hentry, hfront⟩ :=
      List.findSome?_eq_some_iff.mp hfound
    obtain ⟨line, hline, rfl⟩ := Option.map_eq_some_iff.mp hentry
    obtain ⟨before, hfirst, rfl⟩ := exists_of_importLine? hline
    refine .entry hsplit (fun entry hentry => ?_) hfirst
    exact importLine?_eq_none.mp (Option.map_eq_none_iff.mp (hfront entry hentry))

/-- The enforced rules that a file breaks. -/
def breachesOf (documents : List (Path × String)) (content : List Char) : List Breach :=
  (enforcedAt documents).filterMap fun item =>
    (importLine? item.2.pattern content).map fun line => ⟨item.1, item.2, line⟩

theorem mem_breachesOf {content : List Char} {breach : Breach} :
    breach ∈ breachesOf documents content ↔ (breach.place, breach.rule) ∈ enforcedAt documents ∧
      importLine? breach.rule.pattern content = some breach.line := by
  obtain ⟨place, rule, line⟩ := breach
  simp only [breachesOf, List.mem_filterMap, Prod.exists, Option.map_eq_some_iff,
    Breach.mk.injEq]
  constructor
  · rintro ⟨_, _, hitem, _, hline, rfl, rfl, rfl⟩
    exact ⟨hitem, hline⟩
  · rintro ⟨hitem, hline⟩
    exact ⟨place, rule, hitem, line, hline, rfl, rfl, rfl⟩

theorem pairwise_pattern_enforcedAt (documents : List (Path × String)) :
    (enforcedAt documents).Pairwise fun a b => a.2.pattern ≠ b.2.pattern :=
  pairwise_firstsBy _ _ _

theorem pairwise_breachesOf (documents : List (Path × String)) (content : List Char) :
    (breachesOf documents content).Pairwise fun a b => a.rule.pattern ≠ b.rule.pattern := by
  refine (pairwise_pattern_enforcedAt documents).filterMap _ fun a b hne x hx y hy => ?_
  obtain ⟨_, -, rfl⟩ := Option.map_eq_some_iff.mp hx
  obtain ⟨_, -, rfl⟩ := Option.map_eq_some_iff.mp hy
  exact hne

-- The earliest rule about a package stands for all of them.
theorem exists_mem_breachesOf {content : List Char} {pattern : String} :
    (∃ breach ∈ breachesOf documents content, breach.rule.pattern = pattern) ↔
      (∃ place rule, MinedAt documents place rule ∧ rule.isAvoid = true ∧
        rule.pattern = pattern) ∧ ((importOf pattern).find? content).isSome = true := by
  have hfound : ((importOf pattern).find? content).isSome =
      (importLine? pattern content).isSome := Option.isSome_map.symm
  rw [hfound]
  constructor
  · rintro ⟨breach, hbreach, rfl⟩
    obtain ⟨hkept, hline⟩ := mem_breachesOf.mp hbreach
    have hearliest := mem_enforcedAt_iff.mp hkept
    exact ⟨⟨_, _, hearliest.mined, hearliest.isAvoid, rfl⟩, by rw [hline]; rfl⟩
  · rintro ⟨⟨place, rule, hmined, havoid, rfl⟩, hsome⟩
    obtain ⟨line, hline⟩ := Option.isSome_iff_exists.mp hsome
    have hfirst : ∃ item ∈ enforcedAt documents, item.2.pattern = rule.pattern :=
      exists_mem_firstsBy (mem_avoidances_iff.mpr ⟨hmined, havoid⟩) List.not_mem_nil
    obtain ⟨⟨earliest, kept⟩, hkept, hpattern⟩ := hfirst
    refine ⟨⟨earliest, kept, line⟩, mem_breachesOf.mpr ⟨hkept, ?_⟩, hpattern⟩
    exact (congrArg (importLine? · content) hpattern).trans hline

theorem isReport_checkFile (documents : List (Path × String)) (file : SourceFile) :
    ∃ dated, checkFile (mineAll documents) file = dated.toList ++
      (breachesOf documents file.content.toList).map
        (fun breach => violation file.path breach.rule breach.line) ∧
      IsReport documents file dated (breachesOf documents file.content.toList) := by
  refine ⟨_, ?_, isDated_findSome? file, pairwise_breachesOf documents _,
    fun pattern => exists_mem_breachesOf, fun breach hbreach => ?_, fun breach hbreach => ?_⟩
  · rw [checkFile, ← map_snd_enforcedAt, List.filterMap_map, breachesOf, List.map_filterMap]
    refine congrArg _ (List.filterMap_congr fun item _ => ?_)
    rw [Option.map_map]
    rfl
  · exact mem_enforcedAt_iff.mp (mem_breachesOf.mp hbreach).1
  · exact exists_of_importLine? (mem_breachesOf.mp hbreach).2

/-- The mined rules, the enforced ones and those only listed, with their places. -/
structure Lists (documents : List (Path × String)) (mined kept listed : List (Place × MinedRule)) :
    Prop where
  map_mined : mined.map Prod.snd = mineAll documents
  map_kept : kept.map Prod.snd = enforced (mineAll documents)
  map_listed : listed.map Prod.snd = informational (mineAll documents)
  mem_mined : ∀ place rule, (place, rule) ∈ mined ↔ MinedAt documents place rule
  pairwise : mined.Pairwise fun a b => a.1.Before b.1
  kept_sublist : kept.Sublist mined
  listed_sublist : listed.Sublist mined
  listing : ∀ place rule, (place, rule) ∈ mined →
    ∃! listing, IsListed kept listed place rule listing

theorem lists_placed (documents : List (Path × String)) :
    Lists documents (placed documents) (enforcedAt documents) (informationalAt documents) where
  map_mined := map_snd_placed documents
  map_kept := map_snd_enforcedAt documents
  map_listed := map_snd_informationalAt documents
  mem_mined _ _ := mem_placed_iff
  pairwise := pairwise_placed documents
  kept_sublist := (firstsBy_sublist _ _ _).trans List.filter_sublist
  listed_sublist := List.filter_sublist
  listing _ _ h := existsUnique_listing (mem_placed_iff.mp h)

/-- On rules of documents a file is reported at most once for each package, exactly if a sentence
says to avoid it and the file imports it, and then for the earliest such sentence; each mined rule
is enforced, or only listed, or repeats an enforced one before it. -/
theorem checkFile_attributes (documents : List (Path × String)) (file : SourceFile) :
    (∃ dated breaches, checkFile (mineAll documents) file = dated.toList ++
        breaches.map (fun breach => violation file.path breach.rule breach.line) ∧
      IsReport documents file dated breaches) ∧
    ∃ mined kept listed, Lists documents mined kept listed := by
  obtain ⟨dated, hcheck, hreport⟩ := isReport_checkFile documents file
  exact ⟨⟨dated, _, hcheck, hreport⟩, _, _, _, lists_placed documents⟩

example : (enforced (mineAll [(⟨"A.md"⟩, "Prefer ky over axios.\nNever use moment."),
    (⟨"B.md"⟩, "Use dayjs instead of moment, and never use axios.")])).map MinedRule.text =
      ["avoid moment [A.md:2]", "avoid axios [B.md:1]"] := by decide

end Scrutiny.Rules
