import Mathlib.Tactic.Common
import Scrutiny.Json.Parser
import Scrutiny.Json.Printer

/-!
JSON is read back as the value that it was written from, be it indented or on one line.  A string
literal is written character by character, and each character is one unit of what is read; a value
is read with as many steps as its text has room for, whatever blanks its layout has.
-/

namespace Scrutiny.Json

/-! ## 1. Characters -/

theorem hexValue?_hexDigit {n : Nat} (h : n < 16) : hexValue? (hexDigit n) = some n := by
  revert n
  decide

-- A control character is read back from the number that it is written as.
theorem unit?_control {n : Nat} (h : n < 0x20) :
    unit? '0' '0' (hexDigit (n / 16)) (hexDigit (n % 16)) = some n := by
  have hzero : hexValue? '0' = some 0 := rfl
  rw [unit?, hzero, hexValue?_hexDigit (by omega), hexValue?_hexDigit (by omega)]
  show some (((0 * 16 + 0) * 16 + n / 16) * 16 + n % 16) = some n
  congr 1
  omega

-- A character is written as a letter after a backslash, by its number, or as it is.
theorem escape_cases (c : Char) :
    (∃ letter, letter ≠ 'u' ∧ escaped? letter = some c ∧ escape c = ['\\', letter]) ∨
      (c.toNat < 0x20 ∧
        escape c = ['\\', 'u', '0', '0', hexDigit (c.toNat / 16), hexDigit (c.toNat % 16)]) ∨
      (¬ c.toNat < 0x20 ∧ c ≠ '"' ∧ c ≠ '\\' ∧ escape c = [c]) := by
  by_cases hletter : c ∈ ['"', '\\', '\x08', '\x0c', '\n', '\r', '\t']
  · refine Or.inl ?_
    simp only [List.mem_cons, List.not_mem_nil, or_false] at hletter
    rcases hletter with rfl | rfl | rfl | rfl | rfl | rfl | rfl
    · exact ⟨'"', by decide, rfl, rfl⟩
    · exact ⟨'\\', by decide, rfl, rfl⟩
    · exact ⟨'b', by decide, rfl, rfl⟩
    · exact ⟨'f', by decide, rfl, rfl⟩
    · exact ⟨'n', by decide, rfl, rfl⟩
    · exact ⟨'r', by decide, rfl, rfl⟩
    · exact ⟨'t', by decide, rfl, rfl⟩
  · -- no letter stands for the character
    simp only [List.mem_cons, List.not_mem_nil, or_false, not_or] at hletter
    by_cases hcontrol : c.toNat < 0x20
    · exact Or.inr (Or.inl ⟨hcontrol, by simp [escape, hletter, hcontrol]⟩)
    · exact Or.inr (Or.inr ⟨hcontrol, hletter.1, hletter.2.1, by simp [escape, hletter, hcontrol]⟩)

-- One written character is one unit.
theorem units?_escape (c : Char) (rest : List Char) :
    units? (escape c ++ rest) = (units? rest).map fun found => (c.toNat :: found.1, found.2) := by
  rcases escape_cases c with ⟨letter, hu, hread, hescape⟩ | ⟨hcontrol, hescape⟩ |
    ⟨hcontrol, hquote, hslash, hescape⟩
  · rw [hescape, List.cons_append, List.cons_append, List.nil_append, units?, hread]
    · cases units? rest <;> rfl
    · intro a b x y more heq
      exact absurd heq hu
  · rw [hescape]
    show units? ('\\' :: 'u' :: '0' :: '0' :: _ :: _ :: rest) = _
    rw [units?, unit?_control hcontrol]
    cases units? rest <;> rfl
  · rw [hescape, List.singleton_append, units?]
    · simp only [hcontrol, hslash, decide_false, beq_iff_eq, Bool.false_or, if_false]
      cases units? rest <;> rfl
    · exact hquote
    · intro a b x y more heq
      exact absurd heq hslash
    · intro letter more heq
      exact absurd heq hslash

/-! ## 2. Texts -/

theorem units?_quoted (text rest : List Char) :
    units? (text.flatMap escape ++ '"' :: rest) = some (text.map Char.toNat, rest) := by
  induction text with
  | nil => rfl
  | cons c text ih =>
    rw [List.flatMap_cons, List.append_assoc, units?_escape, ih]
    rfl

-- No character is half of a surrogate pair.
theorem not_half (c : Char) : isHighHalf c.toNat = false ∧ isLowHalf c.toNat = false := by
  have hvalid : c.toNat < 0xd800 ∨ 0xdfff < c.toNat ∧ c.toNat < 0x110000 := c.valid
  simp only [isHighHalf, isLowHalf, Bool.and_eq_false_iff, decide_eq_false_iff_not]
  omega

theorem charsOfUnits?_toNat (text : List Char) :
    charsOfUnits? (text.map Char.toNat) = some text := by
  induction text with
  | nil => rfl
  | cons c text ih =>
    obtain ⟨hhigh, hlow⟩ := not_half c
    cases text with
    | nil => simp [charsOfUnits?, hhigh, hlow, Char.ofNat_toNat]
    | cons d text =>
      rw [List.map_cons] at ih
      rw [List.map_cons, List.map_cons, charsOfUnits?, hhigh, hlow, ih]
      simp [Char.ofNat_toNat]

/-- A string literal is read as its text, whatever follows it. -/
theorem stringTail?_quote (text : String) (rest : List Char) :
    stringTail? (text.toList.flatMap escape ++ '"' :: rest) = some (some text, rest) := by
  rw [stringTail?, units?_quoted]
  simp [charsOfUnits?_toNat]

/-! ## 3. Blanks -/

theorem skipSpace_cons_of_not {c : Char} (h : isSpace c = false) (text : List Char) :
    skipSpace (c :: text) = c :: text := by
  rw [skipSpace, List.dropWhile_cons_of_neg (by simp [h])]

theorem skipSpace_cons {c : Char} (h : isSpace c = true) (text : List Char) :
    skipSpace (c :: text) = skipSpace text := by
  rw [skipSpace, List.dropWhile_cons_of_pos h, skipSpace]

theorem skipSpace_newline (level : Nat) (text : List Char) :
    skipSpace (newline level ++ text) = skipSpace text := by
  rw [newline, List.cons_append, skipSpace_cons rfl]
  induction 2 * level with
  | zero => rfl
  | succ width ih => rw [List.replicate_succ, List.cons_append, skipSpace_cons rfl, ih]

theorem skipSpace_skipSpace (text : List Char) : skipSpace (skipSpace text) = skipSpace text := by
  induction text with
  | nil => rfl
  | cons c text ih =>
    by_cases hspace : isSpace c = true
    · rw [skipSpace_cons hspace, ih]
    · rw [skipSpace_cons_of_not (Bool.eq_false_iff.mpr hspace),
        skipSpace_cons_of_not (Bool.eq_false_iff.mpr hspace)]

-- Blanks before a value do not matter.
theorem value?_skipSpace (bound : Nat) (text : List Char) :
    value? bound (skipSpace text) = value? bound text := by
  cases bound with
  | zero => rw [value?, value?]
  | succ bound => rw [value?, value?, skipSpace_skipSpace]

theorem items?_skipSpace (bound : Nat) (text : List Char) :
    items? bound (skipSpace text) = items? bound text := by
  cases bound with
  | zero => rw [items?, items?]
  | succ bound => rw [items?, items?, value?_skipSpace]

theorem members?_skipSpace (bound : Nat) (text : List Char) :
    members? bound (skipSpace text) = members? bound text := by
  cases bound with
  | zero => rw [members?, members?]
  | succ bound => rw [members?, members?, skipSpace_skipSpace]

/-! ## 4. Values -/

mutual

/-- The value holds no number, and its strings denote texts. -/
def isTextual : Json → Bool
  | .null => true
  | .bool _ => true
  | .number _ => false
  | .string text => text.isSome
  | .array items => areTextual items
  | .object members => membersTextual members

def areTextual : List Json → Bool
  | [] => true
  | item :: items => isTextual item && areTextual items

def membersTextual : List (Option String × Json) → Bool
  | [] => true
  | (name, value) :: members => name.isSome && isTextual value && membersTextual members

end

theorem value?_null (bound : Nat) (rest : List Char) :
    value? (bound + 1) ("null".toList ++ rest) = some (.null, rest) := by
  rw [value?, show "null".toList = ['n', 'u', 'l', 'l'] from rfl, List.cons_append,
    skipSpace_cons_of_not rfl]
  rfl

theorem value?_true (bound : Nat) (rest : List Char) :
    value? (bound + 1) ("true".toList ++ rest) = some (.bool true, rest) := by
  rw [value?, show "true".toList = ['t', 'r', 'u', 'e'] from rfl, List.cons_append,
    skipSpace_cons_of_not rfl]
  rfl

theorem value?_false (bound : Nat) (rest : List Char) :
    value? (bound + 1) ("false".toList ++ rest) = some (.bool false, rest) := by
  rw [value?, show "false".toList = ['f', 'a', 'l', 's', 'e'] from rfl, List.cons_append,
    skipSpace_cons_of_not rfl]
  rfl

theorem value?_emptyArray (bound : Nat) (rest : List Char) :
    value? (bound + 1) ('[' :: ']' :: rest) = some (.array [], rest) := by
  rw [value?, skipSpace_cons_of_not rfl]
  rfl

theorem value?_emptyObject (bound : Nat) (rest : List Char) :
    value? (bound + 1) ('\x7b' :: '\x7d' :: rest) = some (.object [], rest) := by
  rw [value?, skipSpace_cons_of_not rfl]
  rfl

theorem quote_some (text : String) :
    quote (some text) = '"' :: text.toList.flatMap escape ++ ['"'] := rfl

theorem value?_string (bound : Nat) (text : List Char) :
    value? (bound + 1) ('"' :: text) =
      (stringTail? text).map fun found => (.string found.1, found.2) := by
  rw [value?, skipSpace_cons_of_not rfl]
  rfl

-- An array with an item is read by its items.
theorem value?_array (bound : Nat) {text more : List Char} {c : Char}
    (htext : skipSpace text = c :: more) (hclose : c ≠ ']') :
    value? (bound + 1) ('[' :: text) =
      (items? bound text).map fun found => (.array found.1, found.2) := by
  rw [← items?_skipSpace, value?, skipSpace_cons_of_not rfl, htext]
  simp [htext, hclose]

-- An object with a member is read by its members.
theorem value?_object (bound : Nat) {text more : List Char}
    (htext : skipSpace text = '"' :: more) :
    value? (bound + 1) ('\x7b' :: text) =
      (members? bound text).map fun found => (.object found.1, found.2) := by
  rw [← members?_skipSpace, value?, skipSpace_cons_of_not rfl, htext]
  simp [htext]

section Following

variable {bound : Nat} {text after rest more : List Char}

-- A bracket ends the items.
theorem items?_last {item : Json} (h : value? bound text = some (item, rest))
    (hrest : skipSpace rest = ']' :: more) :
    items? (bound + 1) text = some ([item], more) := by
  simp [items?, h, hrest]

-- One more item is read after a comma.
theorem items?_next {item : Json} (h : value? bound text = some (item, rest))
    (hrest : skipSpace rest = ',' :: more) :
    items? (bound + 1) text =
      (items? bound more).map fun found => (item :: found.1, found.2) := by
  cases hmore : items? bound more <;> simp [items?, h, hrest, hmore]

-- A brace ends the members.
theorem members?_last {name : Option String} {value : Json}
    (hname : stringTail? text = some (name, ':' :: after))
    (h : value? bound after = some (value, rest)) (hrest : skipSpace rest = '\x7d' :: more) :
    members? (bound + 1) ('"' :: text) = some ([(name, value)], more) := by
  simp [members?, skipSpace_cons_of_not, isSpace, hname, h, hrest]

-- One more member is read after a comma.
theorem members?_next {name : Option String} {value : Json}
    (hname : stringTail? text = some (name, ':' :: after))
    (h : value? bound after = some (value, rest)) (hrest : skipSpace rest = ',' :: more) :
    members? (bound + 1) ('"' :: text) =
      (members? bound more).map fun found => ((name, value) :: found.1, found.2) := by
  cases hmore : members? bound more <;>
    simp [members?, skipSpace_cons_of_not, isSpace, hname, h, hrest, hmore]

end Following

/-! ## 5. Layouts -/

/-- The blanks that a written value has between its parts. -/
structure Layout where
  /-- Before an item at a level, and before the bracket that closes the level above. -/
  gap : Nat → List Char
  /-- Behind a colon. -/
  colon : List Char
  skipSpace_gap : ∀ level text, skipSpace (gap level ++ text) = skipSpace text
  skipSpace_colon : ∀ text, skipSpace (colon ++ text) = skipSpace text

def Layout.indented : Layout :=
  ⟨newline, [' '], skipSpace_newline, skipSpace_cons rfl⟩

def Layout.oneLine : Layout :=
  ⟨fun _ => [], [], fun _ _ => rfl, fun _ => rfl⟩

mutual

/-- The value in a layout, at a level. -/
def laidOut (layout : Layout) (level : Nat) : Json → List Char
  | .null => "null".toList
  | .bool value => (if value then "true" else "false").toList
  | .number spelling => spelling
  | .string text => quote text
  | .array [] => ['[', ']']
  | .array (item :: items) =>
      '[' :: (layout.gap (level + 1) ++
        (laidOut layout (level + 1) item ++ laidOutItems layout level items))
  | .object [] => ['\x7b', '\x7d']
  | .object ((name, value) :: members) =>
      '\x7b' :: (layout.gap (level + 1) ++
        (quote name ++ ':' :: (layout.colon ++
          (laidOut layout (level + 1) value ++ laidOutMembers layout level members))))

/-- The items after the first, and the closing bracket. -/
def laidOutItems (layout : Layout) (level : Nat) : List Json → List Char
  | [] => layout.gap level ++ [']']
  | item :: items =>
      ',' :: (layout.gap (level + 1) ++
        (laidOut layout (level + 1) item ++ laidOutItems layout level items))

/-- The members after the first, and the closing brace. -/
def laidOutMembers (layout : Layout) (level : Nat) : List (Option String × Json) → List Char
  | [] => layout.gap level ++ ['\x7d']
  | (name, value) :: members =>
      ',' :: (layout.gap (level + 1) ++
        (quote name ++ ':' :: (layout.colon ++
          (laidOut layout (level + 1) value ++ laidOutMembers layout level members))))

end

mutual

theorem prettyChars_eq (level : Nat) : ∀ value : Json,
    prettyChars level value = laidOut .indented level value
  | .null | .bool _ | .number _ | .string _ | .array [] | .object [] => rfl
  | .array (item :: items) => by
    rw [prettyChars, prettyChars_eq (level + 1) item, prettyItems_eq level items, laidOut]
    simp [Layout.indented]
  | .object ((name, value) :: members) => by
    rw [prettyChars, prettyChars_eq (level + 1) value, prettyMembers_eq level members, laidOut]
    simp [Layout.indented]

theorem prettyItems_eq (level : Nat) : ∀ items : List Json,
    prettyItems level items = laidOutItems .indented level items
  | [] => rfl
  | item :: items => by
    rw [prettyItems, prettyChars_eq (level + 1) item, prettyItems_eq level items, laidOutItems]
    simp [Layout.indented]

theorem prettyMembers_eq (level : Nat) : ∀ members : List (Option String × Json),
    prettyMembers level members = laidOutMembers .indented level members
  | [] => rfl
  | (name, value) :: members => by
    rw [prettyMembers, prettyChars_eq (level + 1) value, prettyMembers_eq level members,
      laidOutMembers]
    simp [Layout.indented]

end

mutual

-- On one line a value looks the same at every level.
theorem compactChars_eq (level : Nat) : ∀ value : Json,
    compactChars value = laidOut .oneLine level value
  | .null | .bool _ | .number _ | .string _ => rfl
  | .array items => by rw [compactChars, List.cons_append, compactItems_eq level items]
  | .object members => by rw [compactChars, List.cons_append, compactMembers_eq level members]

theorem compactItems_eq (level : Nat) : ∀ items : List Json,
    '[' :: (compactItems items ++ [']']) = laidOut .oneLine level (.array items)
  | [] => rfl
  | [item] => by
    rw [compactItems, compactChars_eq (level + 1) item, laidOut]
    rfl
  | item :: next :: items => by
    have htail := (List.cons.inj (compactItems_eq level (next :: items))).2
    rw [compactItems, List.append_assoc, List.cons_append, htail, compactChars_eq (level + 1) item,
      laidOut, laidOutItems]
    · rfl
    · simp

theorem compactMembers_eq (level : Nat) : ∀ members : List (Option String × Json),
    '\x7b' :: (compactMembers members ++ ['\x7d']) = laidOut .oneLine level (.object members)
  | [] => rfl
  | [(name, value)] => by
    rw [compactMembers, compactChars_eq (level + 1) value, laidOut, List.append_assoc]
    rfl
  | (name, value) :: next :: members => by
    have htail := (List.cons.inj (compactMembers_eq level (next :: members))).2
    rw [compactMembers, List.append_assoc, List.cons_append, List.append_assoc, List.cons_append,
      htail, compactChars_eq (level + 1) value, laidOut, laidOutMembers]
    · rfl
    · simp

end

/-! ## 6. Reading a layout -/

section LaidOut

variable (layout : Layout)

-- A written value starts with what is neither blank nor a closing bracket.
theorem laidOut_eq_cons (level : Nat) {value : Json} (h : isTextual value = true) :
    ∃ c more, laidOut layout level value = c :: more ∧ isSpace c = false ∧ c ≠ ']' := by
  cases value with
  | null => exact ⟨'n', _, rfl, rfl, by decide⟩
  | bool value =>
    cases value with
    | true => exact ⟨'t', _, rfl, rfl, by decide⟩
    | false => exact ⟨'f', _, rfl, rfl, by decide⟩
  | number spelling => exact absurd h (by simp [isTextual])
  | string text =>
    cases text with
    | none => exact absurd h (by simp [isTextual])
    | some text => exact ⟨'"', _, rfl, rfl, by decide⟩
  | array items =>
    cases items with
    | nil => exact ⟨'[', _, rfl, rfl, by decide⟩
    | cons item items => exact ⟨'[', _, rfl, rfl, by decide⟩
  | object members =>
    cases members with
    | nil => exact ⟨'\x7b', _, rfl, rfl, by decide⟩
    | cons member members => exact ⟨'\x7b', _, rfl, rfl, by decide⟩

theorem laidOutItems_pos (level : Nat) (items : List Json) :
    0 < (laidOutItems layout level items).length := by
  cases items <;> simp [laidOutItems]

theorem laidOutMembers_pos (level : Nat) (members : List (Option String × Json)) :
    0 < (laidOutMembers layout level members).length := by
  cases members <;> simp [laidOutMembers]

theorem laidOut_array (level : Nat) (item : Json) (items : List Json) (rest : List Char) :
    laidOut layout level (.array (item :: items)) ++ rest =
      '[' :: (layout.gap (level + 1) ++
        (laidOut layout (level + 1) item ++ (laidOutItems layout level items ++ rest))) := by
  simp [laidOut]

theorem laidOutItems_cons (level : Nat) (item : Json) (items : List Json) (rest : List Char) :
    laidOutItems layout level (item :: items) ++ rest =
      ',' :: (layout.gap (level + 1) ++
        (laidOut layout (level + 1) item ++ (laidOutItems layout level items ++ rest))) := by
  simp [laidOutItems]

/-- A member as it is written, without the quote that opens its name. -/
def memberTail (level : Nat) (name : String) (value : Json) (rest : List Char) : List Char :=
  name.toList.flatMap escape ++
    '"' :: ':' :: (layout.colon ++ (laidOut layout (level + 1) value ++ rest))

theorem laidOut_object (level : Nat) (name : String) (value : Json)
    (members : List (Option String × Json)) (rest : List Char) :
    laidOut layout level (.object ((some name, value) :: members)) ++ rest =
      '\x7b' :: (layout.gap (level + 1) ++ '"' ::
        memberTail layout level name value (laidOutMembers layout level members ++ rest)) := by
  rw [laidOut, quote_some, memberTail]
  simp only [List.append_assoc, List.cons_append, List.nil_append]

theorem laidOutMembers_cons (level : Nat) (name : String) (value : Json)
    (members : List (Option String × Json)) (rest : List Char) :
    laidOutMembers layout level ((some name, value) :: members) ++ rest =
      ',' :: (layout.gap (level + 1) ++ '"' ::
        memberTail layout level name value (laidOutMembers layout level members ++ rest)) := by
  rw [laidOutMembers, quote_some, memberTail]
  simp only [List.append_assoc, List.cons_append, List.nil_append]

mutual

/-- A written value is read back, given two steps for each of its characters. -/
theorem value?_laidOut (level : Nat) (rest : List Char) : ∀ (value : Json) (bound : Nat),
    isTextual value = true → 2 * (laidOut layout level value).length ≤ bound →
    value? bound (laidOut layout level value ++ rest) = some (value, rest)
  | .null, bound + 1, _, _ => value?_null bound rest
  | .bool true, bound + 1, _, _ => value?_true bound rest
  | .bool false, bound + 1, _, _ => value?_false bound rest
  | .string (some text), bound + 1, _, _ => by
    rw [laidOut, quote_some, List.cons_append, List.cons_append, List.append_assoc,
      value?_string]
    show (stringTail? (text.toList.flatMap escape ++ '"' :: rest)).map _ = _
    rw [stringTail?_quote]
    rfl
  | .array [], bound + 1, _, _ => value?_emptyArray bound rest
  | .array (item :: items), bound + 1, h, hb => by
    rw [isTextual, areTextual, Bool.and_eq_true] at h
    obtain ⟨c, more, htext, hspace, hclose⟩ := laidOut_eq_cons layout (level + 1) h.1
    have hlength := congrArg List.length (laidOut_array layout level item items [])
    simp only [List.append_nil, List.length_cons, List.length_append] at hlength
    have hstart : skipSpace (layout.gap (level + 1) ++
        (laidOut layout (level + 1) item ++ (laidOutItems layout level items ++ rest))) =
          c :: (more ++ (laidOutItems layout level items ++ rest)) := by
      rw [layout.skipSpace_gap, htext, List.cons_append, skipSpace_cons_of_not hspace]
    rw [laidOut_array, value?_array bound hstart hclose, ← items?_skipSpace, hstart,
      ← List.cons_append, ← htext,
      items?_laidOutItems level rest item items bound h.1 h.2 (by omega)]
    rfl
  | .object [], bound + 1, _, _ => value?_emptyObject bound rest
  | .object ((some name, value) :: members), bound + 1, h, hb => by
    rw [isTextual, membersTextual, Bool.and_eq_true, Bool.and_eq_true] at h
    have hlength := congrArg List.length (laidOut_object layout level name value members [])
    simp only [List.append_nil, List.length_cons, List.length_append, memberTail] at hlength
    have hstart : skipSpace (layout.gap (level + 1) ++ '"' ::
        memberTail layout level name value (laidOutMembers layout level members ++ rest)) =
          '"' :: memberTail layout level name value
            (laidOutMembers layout level members ++ rest) := by
      rw [layout.skipSpace_gap, skipSpace_cons_of_not rfl]
    rw [laidOut_object, value?_object bound hstart, ← members?_skipSpace, hstart,
      members?_laidOutMembers level rest name value members bound h.1.2 h.2 (by omega)]
    rfl
  -- a written value is not empty, so there are steps
  | value, 0, h, hb => by
    obtain ⟨c, more, htext, -⟩ := laidOut_eq_cons layout level h
    rw [htext, List.length_cons] at hb
    omega

-- The items of an array are read back.
theorem items?_laidOutItems (level : Nat) (rest : List Char) :
    ∀ (item : Json) (items : List Json) (bound : Nat),
    isTextual item = true → areTextual items = true →
    2 * ((laidOut layout (level + 1) item).length + (laidOutItems layout level items).length) ≤
      bound →
    items? bound (laidOut layout (level + 1) item ++ (laidOutItems layout level items ++ rest)) =
      some (item :: items, rest)
  | item, items, 0, h, hs, hb => by
    have hpos := laidOutItems_pos layout level items
    omega
  | item, [], bound + 1, h, _, hb => by
    have hpos := laidOutItems_pos layout level []
    have hitem := value?_laidOut (level + 1) (laidOutItems layout level [] ++ rest) item bound h
      (by omega)
    apply items?_last hitem
    rw [laidOutItems, List.append_assoc, layout.skipSpace_gap]
    rfl
  | item, next :: items, bound + 1, h, hs, hb => by
    rw [areTextual, Bool.and_eq_true] at hs
    have hlength := congrArg List.length (laidOutItems_cons layout level next items [])
    simp only [List.append_nil, List.length_cons, List.length_append] at hlength
    have hitem := value?_laidOut (level + 1) (laidOutItems layout level (next :: items) ++ rest)
      item bound h (by omega)
    have hcomma := laidOutItems_cons layout level next items rest
    rw [items?_next hitem (by rw [hcomma, skipSpace_cons_of_not rfl]), ← items?_skipSpace,
      layout.skipSpace_gap, items?_skipSpace,
      items?_laidOutItems level rest next items bound hs.1 hs.2 (by omega)]
    rfl

-- The members of an object are read back.
theorem members?_laidOutMembers (level : Nat) (rest : List Char) :
    ∀ (name : String) (value : Json) (members : List (Option String × Json)) (bound : Nat),
    isTextual value = true → membersTextual members = true →
    2 * ((laidOut layout (level + 1) value).length +
      (laidOutMembers layout level members).length) ≤ bound →
    members? bound ('"' ::
        memberTail layout level name value (laidOutMembers layout level members ++ rest)) =
      some ((some name, value) :: members, rest)
  | name, value, members, 0, h, hs, hb => by
    have hpos := laidOutMembers_pos layout level members
    omega
  | name, value, [], bound + 1, h, _, hb => by
    have hpos := laidOutMembers_pos layout level []
    have hvalue := value?_laidOut (level + 1) (laidOutMembers layout level [] ++ rest) value bound
      h (by omega)
    rw [← value?_skipSpace, ← layout.skipSpace_colon, value?_skipSpace] at hvalue
    apply members?_last (stringTail?_quote name _) hvalue
    rw [laidOutMembers, List.append_assoc, layout.skipSpace_gap]
    rfl
  | name, value, (some next, other) :: members, bound + 1, h, hs, hb => by
    rw [membersTextual, Bool.and_eq_true, Bool.and_eq_true] at hs
    have hlength := congrArg List.length (laidOutMembers_cons layout level next other members [])
    simp only [List.append_nil, List.length_cons, List.length_append, memberTail] at hlength
    have hvalue := value?_laidOut (level + 1)
      (laidOutMembers layout level ((some next, other) :: members) ++ rest) value bound h
      (by omega)
    rw [← value?_skipSpace, ← layout.skipSpace_colon, value?_skipSpace] at hvalue
    have hcomma := laidOutMembers_cons layout level next other members rest
    rw [memberTail, members?_next (stringTail?_quote name _) hvalue
      (by rw [hcomma, skipSpace_cons_of_not rfl]), ← members?_skipSpace, layout.skipSpace_gap,
      members?_skipSpace,
      members?_laidOutMembers level rest next other members bound hs.1.2 hs.2 (by omega)]
    rfl

end

/-- A value without numbers is what its text in a layout spells, blanks behind it allowed. -/
theorem parse?_laidOut {value : Json} (h : isTextual value = true) {text : String}
    (blanks : List Char) (htext : text.toList = laidOut layout 0 value ++ blanks)
    (hblanks : skipSpace blanks = []) : parse? text = some value := by
  have hread := value?_laidOut layout 0 blanks value (2 * text.toList.length + 2) h
    (by rw [htext, List.length_append]; omega)
  rw [← htext] at hread
  rw [parse?, hread]
  simp [hblanks]

end LaidOut

theorem parse?_pretty {value : Json} (h : isTextual value = true) :
    parse? (value.pretty ++ "\n") = some value := by
  refine parse?_laidOut .indented h ['\n'] ?_ rfl
  rw [String.toList_append, pretty, String.toList_ofList, prettyChars_eq]
  rfl

theorem parse?_compact {value : Json} (h : isTextual value = true) :
    parse? value.compact = some value := by
  refine parse?_laidOut .oneLine h [] ?_ rfl
  rw [compact, String.toList_ofList, compactChars_eq 0, List.append_nil]

end Scrutiny.Json
