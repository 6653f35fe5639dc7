import Scrutiny.Proofs.Detect.Words
import Scrutiny.Proofs.Text.CharClass

/-!
How the clause of an import is written, and the names that it binds.
-/

namespace Scrutiny.Imports

open Text

/-! ## 1. Names -/

/-- A name that an import may bind. -/
structure IsName (name : List Char) : Prop where
  isIdentifier : isIdentifier name = true
  ne_import : name ≠ "import".toList

namespace IsName

variable {name : List Char}

theorem ne_nil (h : IsName name) : name ≠ [] :=
  ne_nil_of_isIdentifier h.isIdentifier

theorem isIdentChar_of_mem (h : IsName name) {c : Char} (hc : c ∈ name) : isIdentChar c = true :=
  List.all_eq_true.mp (all_isIdentChar_of_isIdentifier h.isIdentifier) c hc

theorem not_mem (h : IsName name) {c : Char} (hc : isIdentChar c = false) : c ∉ name := by
  intro hmem
  rw [h.isIdentChar_of_mem hmem] at hc
  exact absurd hc.symm Bool.false_ne_true

theorem solidStart (h : IsName name) : SolidStart name := by
  cases name with
  | nil => exact absurd rfl h.ne_nil
  | cons c name =>
    exact ⟨c, rfl, isBlank_of_isIdentChar (h.isIdentChar_of_mem List.mem_cons_self)⟩

theorem solidEnd (h : IsName name) : SolidEnd name :=
  ⟨name.getLast h.ne_nil, List.getLast?_eq_some_getLast h.ne_nil,
    isBlank_of_isIdentChar (h.isIdentChar_of_mem (List.getLast_mem h.ne_nil))⟩

theorem trim_eq (h : IsName name) : trim name = name := by
  rw [trim, h.solidStart.trimStart, h.solidEnd.trimEnd]

end IsName

/-! ## 2. Items in braces -/

/-- A new name for an imported one, with the blanks around the ` as ` before it. -/
structure Renaming where
  before : List Char
  after : List Char
  name : List Char

/-- An item in braces.  If it is marked as a type, these are the blanks behind the mark. -/
structure Item where
  mark : Option (List Char) := none
  name : List Char
  renamed : Option Renaming := none

namespace Item

variable {item : Item}

def renamedText (item : Item) : List Char :=
  match item.renamed with
  | none => []
  | some renamed => renamed.before ++ (" as ".toList ++ (renamed.after ++ renamed.name))

def text (item : Item) : List Char :=
  match item.mark with
  | none => item.name ++ item.renamedText
  | some gap => "type ".toList ++ (gap ++ (item.name ++ item.renamedText))

/-- The name that the item binds. -/
def bound (item : Item) : List Char :=
  match item.renamed with
  | none => item.name
  | some renamed => renamed.name

/-- Names and blanks are where they belong.  An item without a mark that is renamed is not called
`type`, which would be a mark. -/
structure WellFormed (item : Item) : Prop where
  mark : ∀ gap ∈ item.mark, isBlankText gap = true
  name : IsName item.name
  renamed : ∀ renamed ∈ item.renamed, isBlankText renamed.before = true ∧
    isBlankText renamed.after = true ∧ IsName renamed.name
  ne_type : item.mark = none → item.renamed ≠ none → item.name ≠ "type".toList

theorem WellFormed.isName_bound (h : item.WellFormed) : IsName item.bound := by
  rw [bound]
  cases hrenamed : item.renamed with
  | none => exact h.name
  | some renamed => exact (h.renamed renamed hrenamed).2.2

theorem WellFormed.solidEnd_renamed (h : item.WellFormed) :
    SolidEnd (item.name ++ item.renamedText) := by
  rw [renamedText]
  cases hrenamed : item.renamed with
  | none => simpa only [List.append_nil] using h.name.solidEnd
  | some renamed =>
    have hname := (h.renamed renamed hrenamed).2.2
    exact (((hname.solidEnd.append _).append _).append _).append _

theorem WellFormed.solidStart_text (h : item.WellFormed) : SolidStart item.text := by
  rw [text]
  cases item.mark with
  | none => exact h.name.solidStart.append _
  | some gap => exact ⟨'t', rfl, rfl⟩

theorem WellFormed.solidEnd_text (h : item.WellFormed) : SolidEnd item.text := by
  rw [text]
  cases item.mark with
  | none => exact h.solidEnd_renamed
  | some gap => exact (h.solidEnd_renamed.append _).append _

-- Between blanks and a name there is no further ` as `.
theorem not_as_infix {gap name : List Char} (hgap : isBlankText gap = true) (hname : IsName name) :
    ¬ " as ".toList <:+: gap ++ name := by
  have hspace : ' ' ∉ name := hname.not_mem rfl
  induction gap with
  | nil =>
    intro h
    exact hspace (h.subset (by decide))
  | cons c gap ih =>
    rw [isBlankText, List.all_cons, Bool.and_eq_true] at hgap
    rw [List.cons_append, List.infix_cons_iff, not_or]
    refine ⟨fun h => ?_, ih hgap.2⟩
    obtain ⟨-, h⟩ := List.cons_prefix_cons.mp (show ' ' :: ['a', 's', ' '] <+: _ from h)
    cases gap with
    | nil => exact hspace (h.subset (by decide))
    | cons d gap =>
      obtain ⟨rfl, -⟩ := List.cons_prefix_cons.mp h
      have hd := hgap.2
      simp [isBlank] at hd

theorem afterLast?_renamed (h : item.WellFormed) :
    trim ((afterLast? " as ".toList (item.name ++ item.renamedText)).getD
      (item.name ++ item.renamedText)) = item.bound := by
  rw [renamedText, bound]
  cases hrenamed : item.renamed with
  | none =>
    have hnone : ¬ " as ".toList <:+: [] ++ item.name := not_as_infix rfl h.name
    rw [List.nil_append] at hnone
    rw [List.append_nil, afterLast?_eq_none hnone]
    exact h.name.trim_eq
  | some renamed =>
    obtain ⟨-, hafter, hname⟩ := h.renamed renamed hrenamed
    have hlast : afterLast? " as ".toList
        (" as ".toList ++ (renamed.after ++ renamed.name)) =
          some (renamed.after ++ renamed.name) := by
      have hnone : ¬ " as ".toList <:+: 'a' :: 's' :: ' ' :: (renamed.after ++ renamed.name) := by
        have hblank : isBlankText (' ' :: renamed.after) = true := by
          rw [isBlankText, List.all_cons]
          exact hafter
        rw [List.infix_cons_iff, List.infix_cons_iff, not_or, not_or]
        exact ⟨by simp, by simp, not_as_infix hblank hname⟩
      change afterLast? " as ".toList
        (' ' :: 'a' :: 's' :: ' ' :: (renamed.after ++ renamed.name)) = _
      rw [afterLast?, afterLast?_eq_none hnone]
      exact dropPrefix?_append " as ".toList _
    rw [← List.append_assoc, afterLast?_append _ hlast]
    exact trim_append_left hafter hname.solidStart hname.solidEnd

-- A name that only begins with the mark goes on where the mark has its blank.
theorem dropPrefix?_mark (h : item.WellFormed) (hmark : item.mark = none) :
    dropPrefix? "type ".toList (item.name ++ item.renamedText) = none := by
  refine dropPrefix?_eq_none fun hbegins => ?_
  have hspace : ' ' ∉ item.name := h.name.not_mem rfl
  rw [renamedText] at hbegins
  cases hrenamed : item.renamed with
  | none =>
    rw [hrenamed, List.append_nil] at hbegins
    exact hspace (hbegins.subset (by decide))
  | some renamed =>
    obtain ⟨hbefore, -, -⟩ := h.renamed renamed hrenamed
    rw [hrenamed] at hbegins
    obtain ⟨rest, hrest⟩ := hbegins
    have htake := congrArg (List.takeWhile isIdentChar) hrest
    have hname : item.name.all isIdentChar = true :=
      all_isIdentChar_of_isIdentifier h.name.isIdentifier
    have hstop (text : List Char) : ((renamed.before ++ (" as ".toList ++ text)).takeWhile
        isIdentChar) = [] := by
      cases hgap : renamed.before with
      | nil => rfl
      | cons c gap =>
        rw [hgap, isBlankText, List.all_cons, Bool.and_eq_true] at hbefore
        exact List.takeWhile_cons_of_neg (by simp [isIdentChar_of_isBlank hbefore.1])
    rw [List.takeWhile_append_of_pos (List.all_eq_true.mp hname), hstop, List.append_nil] at htake
    refine h.ne_type hmark (by simp [hrenamed]) (htake.symm.trans ?_)
    rfl

theorem bracedName_padded (h : item.WellFormed) {front back : List Char}
    (hfront : isBlankText front = true) (hback : isBlankText back = true) (typeOnly : Bool) :
    bracedName typeOnly (front ++ item.text ++ back) =
      some ⟨item.bound, typeOnly || item.mark.isSome⟩ := by
  have hbound := h.isName_bound.isIdentifier
  rw [bracedName, trim_padded hfront hback h.solidStart_text h.solidEnd_text, text]
  cases hmark : item.mark with
  | none =>
    simp only [dropPrefix?_mark h hmark, afterLast?_renamed h, hbound]
    rfl
  | some gap =>
    have htrim := trim_append_left (h.mark gap hmark)
      (h.name.solidStart.append item.renamedText) h.solidEnd_renamed
    simp only [dropPrefix?_append, htrim, afterLast?_renamed h, hbound]
    rfl

-- An item is made of names and blanks.
theorem mem_text (h : item.WellFormed) {c : Char} (hc : c ∈ item.text) :
    isIdentChar c = true ∨ isBlank c = true := by
  have hword (text : List Char) (htext : text.all (fun c => isIdentChar c || isBlank c) = true)
      (hc : c ∈ text) : isIdentChar c = true ∨ isBlank c = true := by
    simpa using List.all_eq_true.mp htext c hc
  have hblank {gap : List Char} (hgap : isBlankText gap = true) (hc : c ∈ gap) :
      isIdentChar c = true ∨ isBlank c = true := .inr (List.all_eq_true.mp hgap c hc)
  have hnamed (hc : c ∈ item.name ++ item.renamedText) :
      isIdentChar c = true ∨ isBlank c = true := by
    rcases List.mem_append.mp hc with hc | hc
    · exact .inl (h.name.isIdentChar_of_mem hc)
    · rw [renamedText] at hc
      cases hrenamed : item.renamed with
      | none => simp [hrenamed] at hc
      | some renamed =>
        obtain ⟨hbefore, hafter, hname⟩ := h.renamed renamed hrenamed
        rw [hrenamed] at hc
        simp only [List.mem_append] at hc
        rcases hc with hc | hc | hc | hc
        · exact hblank hbefore hc
        · exact hword " as ".toList (by decide) hc
        · exact hblank hafter hc
        · exact .inl (hname.isIdentChar_of_mem hc)
  rw [text] at hc
  cases hmark : item.mark with
  | none =>
    rw [hmark] at hc
    exact hnamed hc
  | some gap =>
    rw [hmark] at hc
    rcases List.mem_append.mp hc with hc | hc
    · exact hword "type ".toList (by decide) hc
    · rcases List.mem_append.mp hc with hc | hc
      · exact hblank (h.mark gap hmark) hc
      · exact hnamed hc

end Item

/-! ## 3. Clauses -/

/-- An item with the blanks around it. -/
structure Listed where
  before : List Char
  item : Item
  after : List Char

namespace Listed

variable {listed : Listed}

def text (listed : Listed) : List Char :=
  listed.before ++ listed.item.text ++ listed.after

structure WellFormed (listed : Listed) : Prop where
  before : isBlankText listed.before = true
  item : listed.item.WellFormed
  after : isBlankText listed.after = true

def bound (typeOnly : Bool) (listed : Listed) : ImportedName :=
  ⟨listed.item.bound, typeOnly || listed.item.mark.isSome⟩

theorem bracedName_text (h : listed.WellFormed) (typeOnly : Bool) :
    bracedName typeOnly listed.text = some (listed.bound typeOnly) :=
  Item.bracedName_padded h.item h.before h.after typeOnly

theorem mem_text (h : listed.WellFormed) {c : Char} (hc : c ∈ listed.text) :
    isIdentChar c = true ∨ isBlank c = true := by
  rw [text, List.mem_append, List.mem_append] at hc
  rcases hc with (hc | hc) | hc
  · exact .inr (List.all_eq_true.mp h.before c hc)
  · exact Item.mem_text h.item hc
  · exact .inr (List.all_eq_true.mp h.after c hc)

end Listed

/-- Names of one kind: items in braces, with blanks behind the last comma or in empty braces, or a
star with a name for all. -/
inductive Group
  | braces (items : List Listed) (last : Option (List Char))
  | star (before after name : List Char)

namespace Group

def inside (items : List Listed) (last : Option (List Char)) : List Char :=
  [','].intercalate (items.map Listed.text ++ last.toList)

def text : Group → List Char
  | braces items last => '\x7b' :: inside items last ++ ['\x7d']
  | star before after name => '*' :: before ++ "as".toList ++ after ++ name

inductive WellFormed : Group → Prop
  | braces {items : List Listed} {last : Option (List Char)}
      (items_wellFormed : ∀ listed ∈ items, listed.WellFormed)
      (last_isBlank : ∀ gap ∈ last, isBlankText gap = true) : WellFormed (.braces items last)
  | star {before after name : List Char} (before_isBlank : isBlankText before = true)
      (after_isBlank : isBlankText after = true) (after_ne_nil : after ≠ [])
      (isName : IsName name) : WellFormed (.star before after name)

end Group

/-- What an import binds: a default name, a group, or both with a comma between them. -/
inductive Clause
  | default (name : List Char)
  | group (bindings : Group)
  | both (name before after : List Char) (bindings : Group)

namespace Clause

def text : Clause → List Char
  | default name => name
  | group bindings => bindings.text
  | both name before after bindings => name ++ before ++ ',' :: (after ++ bindings.text)

/-- The names that a clause binds, those in braces first. -/
def names (typeOnly : Bool) : Clause → List ImportedName
  | default name => [⟨name, typeOnly⟩]
  | group (.braces items _) => items.map (Listed.bound typeOnly)
  | group (.star _ _ name) => [⟨name, typeOnly⟩]
  | both name _ _ (.braces items _) => items.map (Listed.bound typeOnly) ++ [⟨name, typeOnly⟩]
  | both name _ _ (.star _ _ bound) => [⟨name, typeOnly⟩, ⟨bound, typeOnly⟩]

inductive WellFormed : Clause → Prop
  | default {name : List Char} (isName : IsName name) : WellFormed (.default name)
  | group {bindings : Group} (wellFormed : bindings.WellFormed) : WellFormed (.group bindings)
  | both {name before after : List Char} {bindings : Group} (isName : IsName name)
      (before_isBlank : isBlankText before = true) (after_isBlank : isBlankText after = true)
      (wellFormed : bindings.WellFormed) : WellFormed (.both name before after bindings)

end Clause

/-! ## 4. Reading a clause -/

theorem splitBraces?_append {front inside back : List Char} (hfront : '\x7b' ∉ front)
    (hback : '\x7d' ∉ back) :
    splitBraces? (front ++ '\x7b' :: inside ++ '\x7d' :: back) = some (front, inside, back) := by
  have htake : (front ++ '\x7b' :: inside ++ '\x7d' :: back).takeWhile (· != '\x7b') = front := by
    rw [List.append_assoc, List.takeWhile_append_of_pos]
    · simp
    · intro c hc
      simpa using fun h : c = '\x7b' => hfront (h ▸ hc)
  have htakeBack : ((front ++ '\x7b' :: inside ++ '\x7d' :: back).reverse.takeWhile
      (· != '\x7d')).reverse = back := by
    rw [List.reverse_append, List.reverse_cons, List.append_assoc, List.takeWhile_append_of_pos]
    · simp
    · intro c hc
      simpa using fun h : c = '\x7d' => hback (h ▸ List.mem_reverse.mp hc)
  have hlength : (front ++ '\x7b' :: inside ++ '\x7d' :: back).length =
      front.length + inside.length + back.length + 2 := by
    simp only [List.length_append, List.length_cons]
    omega
  have hdrop : (front ++ '\x7b' :: inside ++ '\x7d' :: back).drop (front.length + 1) =
      inside ++ '\x7d' :: back := by
    rw [List.append_assoc, List.drop_append]
    simp
  rw [splitBraces?, htake, htakeBack, hlength, if_pos (by omega), hdrop,
    show front.length + inside.length + back.length + 2 - front.length - back.length - 2 =
      inside.length by omega, List.take_left]

theorem splitBraces?_eq_none {clause : List Char} (h : '\x7b' ∉ clause) :
    splitBraces? clause = none := by
  have htake : clause.takeWhile (· != '\x7b') = clause := by
    rw [List.takeWhile_eq_self_iff]
    intro c hc
    simpa using fun heq : c = '\x7b' => h (heq ▸ hc)
  rw [splitBraces?, htake]
  exact if_neg (by omega)

theorem plainName_of_isBlankText {part : List Char} (h : isBlankText part = true)
    (typeOnly : Bool) : plainName typeOnly part = none := by
  rw [plainName, trim_of_isBlankText h]
  rfl

theorem plainName_padded {front name back : List Char} (hfront : isBlankText front = true)
    (hname : IsName name) (hback : isBlankText back = true) (typeOnly : Bool) :
    plainName typeOnly (front ++ name ++ back) = some ⟨name, typeOnly⟩ := by
  rw [plainName, trim_padded hfront hback hname.solidStart hname.solidEnd]
  have hstar : '*' ∉ name := hname.not_mem rfl
  have hidentifier := hname.isIdentifier
  split
  · exact absurd List.mem_cons_self hstar
  · simp [hidentifier]

theorem plainName_star {front before after name : List Char} (hfront : isBlankText front = true)
    (hbefore : isBlankText before = true) (hafter : isBlankText after = true)
    (hname : IsName name) (typeOnly : Bool) :
    plainName typeOnly (front ++ (Group.star before after name).text) =
      some ⟨name, typeOnly⟩ := by
  have hend : SolidEnd (Group.star before after name).text := hname.solidEnd.append _
  have htrim := trim_append_left hfront
    (⟨'*', rfl, rfl⟩ : SolidStart (Group.star before after name).text) hend
  have hstart : SolidStart ("as".toList ++ (after ++ name)) := ⟨'a', rfl, rfl⟩
  have hrest := trim_append_left hbefore hstart
    ((hname.solidEnd.append after).append "as".toList)
  have hbound := trim_append_left hafter hname.solidStart hname.solidEnd
  rw [plainName, htrim]
  simp only [Group.text, List.cons_append, List.append_assoc, hrest, dropPrefix?_append, hbound,
    hname.isIdentifier]
  rfl

namespace Group

theorem filterMap_bracedName {items : List Listed} {last : Option (List Char)}
    (hitems : ∀ listed ∈ items, listed.WellFormed)
    (hlast : ∀ gap ∈ last, isBlankText gap = true) (typeOnly : Bool) :
    (splitOn ',' (inside items last)).filterMap (bracedName typeOnly) =
      items.map (Listed.bound typeOnly) := by
  have hblank {gap : List Char} (hgap : isBlankText gap = true) :
      bracedName typeOnly gap = none := by
    rw [bracedName, trim_of_isBlankText hgap]
    rfl
  have hcomma : ∀ part ∈ items.map Listed.text ++ last.toList, ',' ∉ part := by
    intro part hpart hmem
    rcases List.mem_append.mp hpart with hpart | hpart
    · obtain ⟨listed, hlisted, rfl⟩ := List.mem_map.mp hpart
      exact absurd (Listed.mem_text (hitems listed hlisted) hmem) (by decide)
    · have hgap := hlast part (Option.mem_toList.mp hpart)
      exact absurd (List.all_eq_true.mp hgap ',' hmem) (by decide)
  have hitemNames : (items.map Listed.text).filterMap (bracedName typeOnly) =
      items.map (Listed.bound typeOnly) := by
    rw [List.filterMap_map, ← List.filterMap_eq_map]
    refine List.filterMap_congr fun listed hlisted => ?_
    exact Listed.bracedName_text (hitems listed hlisted) typeOnly
  have hlastNames : last.toList.filterMap (bracedName typeOnly) = [] := by
    rw [List.filterMap_eq_nil_iff]
    exact fun gap hgap => hblank (hlast gap (Option.mem_toList.mp hgap))
  by_cases hparts : items.map Listed.text ++ last.toList = []
  · -- Empty braces hold one empty part.
    obtain ⟨hnil, -⟩ := List.append_eq_nil_iff.mp hparts
    rw [inside, hparts, List.map_eq_nil_iff.mp hnil]
    exact List.filterMap_cons_none (hblank rfl)
  · rw [inside, splitOn_eq_splitOn, List.splitOn_intercalate ',' hcomma hparts,
      List.filterMap_append, hitemNames, hlastNames, List.append_nil]

theorem mem_text_star {before after name : List Char} (hbefore : isBlankText before = true)
    (hafter : isBlankText after = true) (hname : IsName name) {c : Char}
    (hc : c ∈ (Group.star before after name).text) :
    c = '*' ∨ isIdentChar c = true ∨ isBlank c = true := by
  simp only [text, List.cons_append, List.mem_cons, List.mem_append] at hc
  rcases hc with hc | ((hc | hc) | hc) | hc
  · exact .inl hc
  · exact .inr (.inr (List.all_eq_true.mp hbefore c hc))
  · have hword : "as".toList.all isIdentChar = true := by decide
    exact .inr (.inl (List.all_eq_true.mp hword c hc))
  · exact .inr (.inr (List.all_eq_true.mp hafter c hc))
  · exact .inr (.inl (hname.isIdentChar_of_mem hc))

theorem not_mem_text_star {before after name : List Char} (hbefore : isBlankText before = true)
    (hafter : isBlankText after = true) (hname : IsName name) {c : Char}
    (hc : c ≠ '*' ∧ isIdentChar c = false ∧ isBlank c = false) :
    c ∉ (Group.star before after name).text := by
  intro hmem
  obtain ⟨hstar, hident, hblank⟩ := hc
  rcases mem_text_star hbefore hafter hname hmem with h | h | h
  · exact hstar h
  · rw [hident] at h
    exact Bool.false_ne_true h
  · rw [hblank] at h
    exact Bool.false_ne_true h

end Group

/-- The names that the parts of a text outside braces bind. -/
def plainNames (typeOnly : Bool) (text : List Char) : List ImportedName :=
  (splitOn ',' text).filterMap (plainName typeOnly)

theorem clauseNames_of_not_mem {clause : List Char} (h : '\x7b' ∉ clause) (typeOnly : Bool) :
    clauseNames typeOnly clause = plainNames typeOnly clause := by
  rw [clauseNames, splitBraces?_eq_none h]
  rfl

theorem clauseNames_braces {front : List Char} (hfront : '\x7b' ∉ front) {items : List Listed}
    {last : Option (List Char)} (hitems : ∀ listed ∈ items, listed.WellFormed)
    (hlast : ∀ gap ∈ last, isBlankText gap = true) (typeOnly : Bool) :
    clauseNames typeOnly (front ++ (Group.braces items last).text) =
      items.map (Listed.bound typeOnly) ++ plainNames typeOnly front := by
  have hsplit : splitBraces? (front ++ '\x7b' :: Group.inside items last ++ ['\x7d']) =
      some (front, Group.inside items last, []) := splitBraces?_append hfront List.not_mem_nil
  rw [List.append_assoc] at hsplit
  have htext : (Group.braces items last).text =
      '\x7b' :: Group.inside items last ++ ['\x7d'] := rfl
  rw [clauseNames, htext, hsplit]
  simp only [Group.filterMap_bracedName hitems hlast, List.append_nil]
  rfl

theorem plainNames_append_comma (typeOnly : Bool) (front back : List Char) :
    plainNames typeOnly (front ++ ',' :: back) =
      plainNames typeOnly front ++ plainNames typeOnly back := by
  rw [plainNames, splitOn_eq_splitOn, List.splitOn_append_cons_self, List.filterMap_append,
    ← splitOn_eq_splitOn, ← splitOn_eq_splitOn]
  rfl

theorem plainNames_eq_toList {text : List Char} (h : ',' ∉ text) (typeOnly : Bool) :
    plainNames typeOnly text = (plainName typeOnly text).toList := by
  rw [plainNames, splitOn_eq_splitOn, List.splitOn_eq_singleton h, List.filterMap_cons]
  cases plainName typeOnly text <;> rfl

theorem comma_not_mem_of_isBlankText {gap : List Char} (h : isBlankText gap = true) : ',' ∉ gap :=
  fun hmem => absurd (List.all_eq_true.mp h ',' hmem) (by decide)

theorem plainNames_of_isBlankText {gap : List Char} (h : isBlankText gap = true)
    (typeOnly : Bool) : plainNames typeOnly gap = [] := by
  rw [plainNames_eq_toList (comma_not_mem_of_isBlankText h), plainName_of_isBlankText h]
  rfl

theorem plainNames_name {name gap : List Char} (hname : IsName name)
    (hgap : isBlankText gap = true) (typeOnly : Bool) :
    plainNames typeOnly (name ++ gap) = [⟨name, typeOnly⟩] := by
  have hcomma : ',' ∉ name ++ gap := by
    rw [List.mem_append, not_or]
    exact ⟨hname.not_mem rfl, comma_not_mem_of_isBlankText hgap⟩
  have hplain : plainName typeOnly ([] ++ name ++ gap) = some ⟨name, typeOnly⟩ :=
    plainName_padded rfl hname hgap typeOnly
  rw [List.nil_append] at hplain
  rw [plainNames_eq_toList hcomma, hplain]
  rfl

theorem plainNames_star {front before after name : List Char} (hfront : isBlankText front = true)
    (hbefore : isBlankText before = true) (hafter : isBlankText after = true)
    (hname : IsName name) (typeOnly : Bool) :
    plainNames typeOnly (front ++ (Group.star before after name).text) = [⟨name, typeOnly⟩] := by
  have hcomma : ',' ∉ front ++ (Group.star before after name).text := by
    rw [List.mem_append, not_or]
    exact ⟨comma_not_mem_of_isBlankText hfront,
      Group.not_mem_text_star hbefore hafter hname (by decide)⟩
  rw [plainNames_eq_toList hcomma, plainName_star hfront hbefore hafter hname]
  rfl

-- No brace stands in a name with blanks and a comma behind it.
theorem brace_not_mem_default {name before after : List Char} (hname : IsName name)
    (hbefore : isBlankText before = true) (hafter : isBlankText after = true) :
    '\x7b' ∉ name ++ before ++ ',' :: after := by
  intro hmem
  simp only [List.mem_append, List.mem_cons] at hmem
  rcases hmem with (hmem | hmem) | hmem | hmem
  · exact hname.not_mem rfl hmem
  · exact absurd (List.all_eq_true.mp hbefore _ hmem) (by decide)
  · exact absurd hmem (by decide)
  · exact absurd (List.all_eq_true.mp hafter _ hmem) (by decide)

theorem clauseNames_group {bindings : Group} (h : bindings.WellFormed) (typeOnly : Bool) :
    clauseNames typeOnly bindings.text = (Clause.group bindings).names typeOnly := by
  cases h with
  | braces hitems hlast =>
    have hempty : '\x7b' ∉ [] := List.not_mem_nil
    have hbraces := clauseNames_braces hempty hitems hlast typeOnly
    rw [List.nil_append, plainNames_of_isBlankText rfl, List.append_nil] at hbraces
    exact hbraces
  | star hbefore hafter _ isName =>
    have hempty : isBlankText [] = true := rfl
    have hstar := plainNames_star hempty hbefore hafter isName typeOnly
    rw [List.nil_append] at hstar
    rw [clauseNames_of_not_mem (Group.not_mem_text_star hbefore hafter isName (by decide)), hstar]
    rfl

/-- A clause is read as it is meant. -/
theorem clauseNames_text {clause : Clause} (h : clause.WellFormed) (typeOnly : Bool) :
    clauseNames typeOnly clause.text = clause.names typeOnly := by
  cases h with
  | @default name isName =>
    have hempty : isBlankText [] = true := rfl
    have hdefault := plainNames_name isName hempty typeOnly
    rw [List.append_nil] at hdefault
    rw [Clause.text, clauseNames_of_not_mem (isName.not_mem rfl), hdefault]
    rfl
  | group wellFormed => exact clauseNames_group wellFormed typeOnly
  | @both name before after bindings isName hbefore hafter wellFormed =>
    have hbrace := brace_not_mem_default isName hbefore hafter
    cases wellFormed with
    | @braces items last hitems hlast =>
      have htext : (Clause.both name before after (.braces items last)).text =
          name ++ before ++ ',' :: after ++ (Group.braces items last).text := by
        rw [Clause.text, List.append_assoc _ (',' :: after), List.cons_append]
      rw [htext, clauseNames_braces hbrace hitems hlast, plainNames_append_comma,
        plainNames_name isName hbefore, plainNames_of_isBlankText hafter]
      rfl
    | @star starBefore starAfter bound hstarBefore hstarAfter _ isBound =>
      have hnot : '\x7b' ∉ name ++ before ++
          ',' :: (after ++ (Group.star starBefore starAfter bound).text) := by
        rw [← List.cons_append, ← List.append_assoc, List.mem_append, not_or]
        exact ⟨hbrace, Group.not_mem_text_star hstarBefore hstarAfter isBound (by decide)⟩
      rw [Clause.text, clauseNames_of_not_mem hnot, plainNames_append_comma,
        plainNames_name isName hbefore, plainNames_star hafter hstarBefore hstarAfter isBound]
      rfl

/-! ## 5. The text of a clause -/

theorem mem_intercalate {separator c : Char} {parts : List (List Char)}
    (hc : c ∈ [separator].intercalate parts) : c = separator ∨ ∃ part ∈ parts, c ∈ part := by
  induction parts with
  | nil => simp at hc
  | cons part parts ih =>
    cases parts with
    | nil => exact .inr ⟨part, List.mem_cons_self, by simpa using hc⟩
    | cons next parts =>
      rw [List.intercalate_cons_cons, List.mem_append, List.mem_append] at hc
      rcases hc with (hc | hc) | hc
      · exact .inr ⟨part, List.mem_cons_self, hc⟩
      · exact .inl (List.mem_singleton.mp hc)
      · refine (ih hc).imp id ?_
        rintro ⟨other, hother, hc⟩
        exact ⟨other, List.mem_cons_of_mem _ hother, hc⟩

def isClauseChar (c : Char) : Bool :=
  isIdentChar c || isBlank c || c == ',' || c == '\x7b' || c == '\x7d' || c == '*'

theorem isClauseChar_of_isBlankText {gap : List Char} (h : isBlankText gap = true) :
    ∀ c ∈ gap, isClauseChar c = true := by
  intro c hc
  simp [isClauseChar, List.all_eq_true.mp h c hc]

theorem IsName.isClauseChar {name : List Char} (h : IsName name) :
    ∀ c ∈ name, isClauseChar c = true := by
  intro c hc
  simp [Imports.isClauseChar, h.isIdentChar_of_mem hc]

theorem Group.WellFormed.isClauseChar {bindings : Group} (h : bindings.WellFormed) :
    ∀ c ∈ bindings.text, isClauseChar c = true := by
  intro c hc
  cases h with
  | @braces items last hitems hlast =>
    rw [Group.text, List.cons_append, List.mem_cons, List.mem_append] at hc
    rcases hc with rfl | hc | hc
    · rfl
    · rcases mem_intercalate hc with rfl | ⟨part, hpart, hc⟩
      · rfl
      · rcases List.mem_append.mp hpart with hpart | hpart
        · obtain ⟨listed, hlisted, rfl⟩ := List.mem_map.mp hpart
          rcases Listed.mem_text (hitems listed hlisted) hc with h | h <;>
            simp [Imports.isClauseChar, h]
        · exact isClauseChar_of_isBlankText (hlast part (Option.mem_toList.mp hpart)) c hc
    · rw [List.mem_singleton.mp hc]
      rfl
  | star hbefore hafter _ isName =>
    rcases Group.mem_text_star hbefore hafter isName hc with rfl | h | h
    · rfl
    · simp [Imports.isClauseChar, h]
    · simp [Imports.isClauseChar, h]

theorem Group.WellFormed.solidEnd {bindings : Group} (h : bindings.WellFormed) :
    SolidEnd bindings.text := by
  cases h with
  | braces => exact SolidEnd.append ⟨'\x7d', rfl, rfl⟩ _
  | star _ _ _ isName => exact isName.solidEnd.append _

namespace Clause.WellFormed

variable {clause : Clause}

theorem isClauseChar (h : clause.WellFormed) : ∀ c ∈ clause.text, isClauseChar c = true := by
  intro c hc
  cases h with
  | default isName => exact isName.isClauseChar c hc
  | group wellFormed => exact wellFormed.isClauseChar c hc
  | both isName hbefore hafter wellFormed =>
    simp only [Clause.text, List.mem_append, List.mem_cons] at hc
    rcases hc with (hc | hc) | rfl | hc | hc
    · exact isName.isClauseChar c hc
    · exact isClauseChar_of_isBlankText hbefore c hc
    · rfl
    · exact isClauseChar_of_isBlankText hafter c hc
    · exact wellFormed.isClauseChar c hc

theorem solidStart (h : clause.WellFormed) : SolidStart clause.text := by
  cases h with
  | default isName => exact isName.solidStart
  | group wellFormed => cases wellFormed <;> exact ⟨_, rfl, rfl⟩
  | both isName => exact (isName.solidStart.append _).append _

theorem solidEnd (h : clause.WellFormed) : SolidEnd clause.text := by
  cases h with
  | default isName => exact isName.solidEnd
  | group wellFormed => exact wellFormed.solidEnd
  | @both name before after bindings isName hbefore hafter wellFormed =>
    rw [Clause.text, List.append_cons, ← List.append_assoc]
    exact wellFormed.solidEnd.append _

end Clause.WellFormed

/-! ## 6. The words of a clause -/

theorem isIdentChar_of_mem_gap {gap : List Char} (h : isBlankText gap = true) :
    ∀ c ∈ gap, isIdentChar c = false :=
  fun c hc => isIdentChar_of_isBlank (List.all_eq_true.mp h c hc)

theorem IsName.words_eq {name : List Char} (h : IsName name) : words name = [name] :=
  words_of_all h.ne_nil (all_isIdentChar_of_isIdentifier h.isIdentifier)

theorem Item.WellFormed.ne_import_of_mem_words {item : Item} (h : item.WellFormed) :
    ∀ word ∈ words item.text, word ≠ "import".toList := by
  have hrenamed : ∀ word ∈ words (item.name ++ item.renamedText), word ≠ "import".toList := by
    rw [Item.renamedText]
    cases hrenamed : item.renamed with
    | none =>
      rw [List.append_nil, h.name.words_eq]
      simpa using h.name.ne_import
    | some renamed =>
      obtain ⟨hbefore, hafter, hname⟩ := h.renamed renamed hrenamed
      have htext : item.name ++ (renamed.before ++ (" as ".toList ++
          (renamed.after ++ renamed.name))) = item.name ++ ((renamed.before ++ [' ']) ++
            ("as".toList ++ ((' ' :: renamed.after) ++ renamed.name))) := by simp
      have hfirst : ∀ c ∈ renamed.before ++ [' '], isIdentChar c = false :=
        isIdentChar_of_mem_gap
          (by rw [isBlankText, List.all_append, Bool.and_eq_true]; exact ⟨hbefore, rfl⟩)
      have hsecond : ∀ c ∈ ' ' :: renamed.after, isIdentChar c = false :=
        isIdentChar_of_mem_gap (by rw [isBlankText, List.all_cons]; exact hafter)
      have has : words "as".toList = ["as".toList] := words_of_all (by decide) (by decide)
      rw [htext, words_append_gap (by simp) hfirst, words_append_gap (List.cons_ne_nil _ _) hsecond,
        h.name.words_eq, hname.words_eq, has]
      intro word hword
      simp only [List.cons_append, List.nil_append, List.mem_cons, List.not_mem_nil, or_false]
        at hword
      rcases hword with rfl | rfl | rfl
      · exact h.name.ne_import
      · decide
      · exact hname.ne_import
  rw [Item.text]
  cases hmark : item.mark with
  | none => exact hrenamed
  | some gap =>
    have htext : "type ".toList ++ (gap ++ (item.name ++ item.renamedText)) =
        "type".toList ++ ((' ' :: gap) ++ (item.name ++ item.renamedText)) := by simp
    have hgap : ∀ c ∈ ' ' :: gap, isIdentChar c = false :=
      isIdentChar_of_mem_gap (by rw [isBlankText, List.all_cons]; exact h.mark gap hmark)
    have htype : words "type".toList = ["type".toList] := words_of_all (by decide) (by decide)
    change ∀ word ∈ words ("type ".toList ++ (gap ++ (item.name ++ item.renamedText))),
      word ≠ "import".toList
    rw [htext, words_append_gap (List.cons_ne_nil _ _) hgap, htype]
    intro word hword
    rcases List.mem_append.mp hword with hword | hword
    · rw [List.mem_singleton.mp hword]
      decide
    · exact hrenamed word hword

theorem Group.WellFormed.ne_import_of_mem_words {bindings : Group} (h : bindings.WellFormed) :
    ∀ word ∈ words bindings.text, word ≠ "import".toList := by
  cases h with
  | @braces items last hitems hlast =>
    have htext : words (Group.braces items last).text = words (Group.inside items last) := by
      have hopen : ∀ c ∈ ['\x7b'], isIdentChar c = false := by
        intro c hc
        rw [List.mem_singleton.mp hc]
        rfl
      have hclose : ∀ c ∈ ['\x7d'], isIdentChar c = false := by
        intro c hc
        rw [List.mem_singleton.mp hc]
        rfl
      exact (words_append_of_gap hclose _).trans (words_gap_append hopen _)
    rw [htext, Group.inside, words_intercalate (by decide)]
    intro word hword
    obtain ⟨part, hpart, hword⟩ := List.mem_flatMap.mp hword
    rcases List.mem_append.mp hpart with hpart | hpart
    · obtain ⟨listed, hlisted, rfl⟩ := List.mem_map.mp hpart
      have hlisted := hitems listed hlisted
      rw [Listed.text, words_append_of_gap (isIdentChar_of_mem_gap hlisted.after),
        words_gap_append (isIdentChar_of_mem_gap hlisted.before)] at hword
      exact hlisted.item.ne_import_of_mem_words word hword
    · have hgap := hlast part (Option.mem_toList.mp hpart)
      have hnone := words_append_of_gap (isIdentChar_of_mem_gap hgap) []
      rw [List.nil_append, words_nil] at hnone
      simp [hnone] at hword
  | @star before after name hbefore hafter hne isName =>
    have htext : (Group.star before after name).text =
        ('*' :: before) ++ ("as".toList ++ (after ++ name)) := by simp [Group.text]
    have hfirst : ∀ c ∈ '*' :: before, isIdentChar c = false := by
      intro c hc
      rcases List.mem_cons.mp hc with rfl | hc
      · rfl
      · exact isIdentChar_of_mem_gap hbefore c hc
    have has : words "as".toList = ["as".toList] := words_of_all (by decide) (by decide)
    rw [htext, words_gap_append hfirst, words_append_gap hne (isIdentChar_of_mem_gap hafter), has,
      isName.words_eq]
    intro word hword
    simp only [List.cons_append, List.nil_append, List.mem_cons, List.not_mem_nil, or_false]
      at hword
    rcases hword with rfl | rfl
    · decide
    · exact isName.ne_import

/-- The word `import` stands in no clause. -/
theorem Clause.WellFormed.ne_import_of_mem_words {clause : Clause} (h : clause.WellFormed) :
    ∀ word ∈ words clause.text, word ≠ "import".toList := by
  cases h with
  | @default name isName =>
    rw [Clause.text, isName.words_eq]
    simpa using isName.ne_import
  | group wellFormed => exact wellFormed.ne_import_of_mem_words
  | @both name before after bindings isName hbefore hafter wellFormed =>
    rw [Clause.text, words_append_cons (by decide), words_append_of_gap
      (isIdentChar_of_mem_gap hbefore), words_gap_append (isIdentChar_of_mem_gap hafter),
      isName.words_eq]
    intro word hword
    rcases List.mem_append.mp hword with hword | hword
    · rw [List.mem_singleton.mp hword]
      exact isName.ne_import
    · exact wellFormed.ne_import_of_mem_words word hword

end Scrutiny.Imports
