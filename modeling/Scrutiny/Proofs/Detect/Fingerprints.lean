import Scrutiny.Proofs.Detect.Involvement
import Scrutiny.Proofs.Digest.Numeral

/-!
The fingerprints that findings about duplicated code show.  A finding shows the numeral of the hash
that its two windows have, and shows it where it can be told from the rest of the text, so that two
findings show the same fingerprint only if their windows have the same hash.
-/

namespace Scrutiny.Clones

open Text Fingerprint

/-! ## 1. What is shown -/

/-- The fingerprint that a finding shows: what its description says behind the last place where one
begins, up to the next parenthesis. -/
def shownPrint? (finding : Finding) : Option (List Char) :=
  (afterLast? "(fingerprint ".toList finding.description.toList).map fun text =>
    text.takeWhile (· != ')')

theorem not_mem_numeral (hash : Int32) {c : Char} (hminus : c ≠ '-') (hdigit : c ∉ digitChars) :
    c ∉ (numeral hash).toList := by
  obtain ⟨digits, htext, hdigits, -⟩ := (isNumeral_numeral hash).written
  rw [htext, List.mem_append, not_or]
  refine ⟨fun hmem => ?_, fun hmem => hdigit (hdigits c hmem)⟩
  split at hmem
  next => exact hminus (List.mem_singleton.mp hmem)
  next => exact List.not_mem_nil hmem

-- Neither in the fingerprint nor behind it a parenthesis opens.
theorem afterLast?_print {front print back : List Char} (hprint : '(' ∉ print)
    (hback : '(' ∉ back) :
    afterLast? "(fingerprint ".toList (front ++ ("(fingerprint ".toList ++ (print ++ back))) =
      some (print ++ back) := by
  apply afterLast?_append
  have hnone : ¬ "(fingerprint ".toList <:+: "fingerprint ".toList ++ (print ++ back) := by
    intro hinfix
    have hopens : '(' ∈ "fingerprint ".toList ++ (print ++ back) := hinfix.subset (by decide)
    rw [List.mem_append, List.mem_append] at hopens
    rcases hopens with hopens | hopens | hopens
    · exact absurd hopens (by decide)
    · exact hprint hopens
    · exact hback hopens
  show afterLast? "(fingerprint ".toList ('(' :: ("fingerprint ".toList ++ (print ++ back))) = _
  rw [afterLast?, afterLast?_eq_none hnone]
  exact dropPrefix?_append "(fingerprint ".toList (print ++ back)

theorem toList_of_ending {description text opening print closing : String} {before back : List Char}
    (h : description = text ++ opening ++ print ++ closing)
    (hopening : opening.toList = before ++ "(fingerprint ".toList)
    (hclosing : closing.toList = ')' :: back) :
    description.toList = (text.toList ++ before) ++
      ("(fingerprint ".toList ++ (print.toList ++ ')' :: back)) := by
  rw [h, String.toList_append, String.toList_append, String.toList_append, hopening, hclosing]
  simp only [List.append_assoc]

theorem exists_description (window : Nat) (d : Duplicate) : ∃ front back,
    (d.finding window).description.toList =
      front ++ ("(fingerprint ".toList ++ ((numeral d.hash).toList ++ ')' :: back)) ∧
        '(' ∉ back := by
  by_cases hsame : d.first.path.same d.second.path = true
  · obtain ⟨text, htext⟩ : ∃ text, (d.finding window).description =
        text ++ " are duplicated within the same file (fingerprint " ++ numeral d.hash ++
          "). Extract the shared logic into a helper." := ⟨_, if_pos hsame⟩
    have hopening : " are duplicated within the same file (fingerprint ".toList =
        " are duplicated within the same file ".toList ++ "(fingerprint ".toList := by decide
    exact ⟨_, _, toList_of_ending htext hopening rfl, by decide⟩
  · obtain ⟨text, htext⟩ : ∃ text, (d.finding window).description =
        text ++ " (fingerprint " ++ numeral d.hash ++
          "). Extract the shared logic into one module." := ⟨_, if_neg hsame⟩
    have hopening : " (fingerprint ".toList = [' '] ++ "(fingerprint ".toList := by decide
    exact ⟨_, _, toList_of_ending htext hopening rfl, by decide⟩

theorem shownPrint?_finding (window : Nat) (d : Duplicate) :
    shownPrint? (d.finding window) = some (numeral d.hash).toList := by
  obtain ⟨front, back, hdescription, hback⟩ := exists_description window d
  have hprint : '(' ∉ (numeral d.hash).toList := not_mem_numeral d.hash (by decide) (by decide)
  have hclosing : ')' ∉ (numeral d.hash).toList := not_mem_numeral d.hash (by decide) (by decide)
  have hopens : '(' ∉ ')' :: back := by
    rw [List.mem_cons, not_or]
    exact ⟨by decide, hback⟩
  rw [shownPrint?, hdescription, afterLast?_print hprint hopens, Option.map_some,
    List.takeWhile_append_of_pos]
  · simp
  · intro c hc
    simpa using fun heq : c = ')' => hclosing (heq ▸ hc)

/-! ## 2. Which hash it is -/

/-- The numeral of a hash reads as the hash and is written as numerals should be.  A finding is
about two windows with one hash, and two findings show the same fingerprint exactly if their windows
have the same hash. -/
theorem numeral_determines_hash :
    (∀ hash : Int32, IsNumeral hash.toInt (numeral hash).toList) ∧
    (∀ scope : Scope, ∀ finding ∈ (detect scope).findings, ∃ d : Duplicate,
      finding = d.finding scope.config.cloneWindow ∧
        d.first ∈ places scope d.hash ∧ d.second ∈ places scope d.hash) ∧
    ∀ (window other : Nat) (d e : Duplicate),
      shownPrint? (d.finding window) = shownPrint? (e.finding other) ↔ d.hash = e.hash := by
  refine ⟨isNumeral_numeral, fun scope finding hfinding => ?_, fun window other d e => ?_⟩
  · obtain ⟨d, rest, hd, hplaces, -⟩ := exists_duplicate_of_mem_findings hfinding
    refine ⟨d, hd, ?_, ?_⟩
    · rw [hplaces]
      exact List.mem_cons_self
    · rw [hplaces]
      exact List.mem_cons_of_mem _ List.mem_cons_self
  · rw [shownPrint?_finding, shownPrint?_finding, Option.some_inj, String.toList_inj, numeral_inj]

theorem numeral_determines_hash_triplets : ∃ finding ∈ (detect (triplets "b.ts")).findings,
    ∃ d : Duplicate, finding = d.finding 2 ∧ d.first ∈ places (triplets "b.ts") d.hash ∧
      ∀ e : Duplicate, shownPrint? (e.finding 2) = shownPrint? finding → e.hash = d.hash := by
  have hmem : [⟨"a.ts"⟩, ⟨"b.ts"⟩] ∈ (detect (triplets "b.ts")).findings.map Finding.files := by
    rw [files_findings_triplets (by decide)]
    exact List.mem_singleton_self _
  obtain ⟨finding, hfinding, -⟩ := List.mem_map.mp hmem
  obtain ⟨-, hfound, hshown⟩ := numeral_determines_hash
  obtain ⟨d, rfl, hfirst, -⟩ := hfound (triplets "b.ts") finding hfinding
  exact ⟨_, hfinding, d, rfl, hfirst, fun e => (hshown 2 2 e d).mp⟩

end Scrutiny.Clones
