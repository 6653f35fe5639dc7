import Mathlib.Data.List.Induction
import Scrutiny.Proofs.Time.Calendar
import Scrutiny.Proofs.Time.Date
import Scrutiny.Time.Instant

/-!
An instant is read back from the form that documents hold.  Its text is a row of numerals of fixed
width; each is read on its own, and the day has its number.
-/

open Scrutiny.Text

namespace Scrutiny.Instant

/-! ## 1. Instants that there are -/

/-- The year has a number, and only in a leap second do the nanoseconds go on counting. -/
def isValid (instant : Instant) : Bool :=
  yearInRange (Date.ofDayNumber (instant.seconds / 86400)).year &&
    (decide (instant.nanos < 1000000000) ||
      decide (instant.nanos < 2000000000) && decide (instant.seconds % 60 = 59))

/-! ## 2. Numerals -/

/-- The text does not go on with a digit. -/
def endsDigits (rest : List Char) : Prop :=
  ∀ c ∈ rest.head?, isAsciiDigit c = false

theorem takeWhile_of_endsDigits {rest : List Char} (h : endsDigits rest) :
    rest.takeWhile isAsciiDigit = [] := by
  cases rest with
  | nil => rfl
  | cons c rest =>
    apply List.takeWhile_cons_of_neg
    rw [h c rfl]
    exact Bool.false_ne_true

theorem endsDigits_cons {c : Char} (h : isAsciiDigit c = false) (rest : List Char) :
    endsDigits (c :: rest) := by
  intro d hd
  rw [List.head?_cons, Option.mem_some] at hd
  exact hd ▸ h

theorem endsDigits_take (count : Nat) {rest : List Char} (h : endsDigits rest) :
    endsDigits (rest.take count) := by
  intro c hc
  apply h
  cases count with
  | zero => simp at hc
  | succ count =>
    cases rest with
    | nil => simp at hc
    | cons d rest => simpa using hc

-- The digits of a numeral are all that a reader of enough digits takes.
theorem takeWhile_take_padded {most width n : Nat} (hlength : (Date.padded width n).length ≤ most)
    {rest : List Char} (hrest : endsDigits rest) :
    ((Date.padded width n ++ rest).take most).takeWhile isAsciiDigit = Date.padded width n := by
  rw [List.take_append, List.take_of_length_le hlength, List.takeWhile_append_of_pos
    (List.all_eq_true.mp (Date.all_isAsciiDigit_padded width n)),
    takeWhile_of_endsDigits (endsDigits_take _ hrest), List.append_nil]

theorem number?_padded {most width n : Nat} (hlength : (Date.padded width n).length ≤ most)
    {rest : List Char} (hrest : endsDigits rest) :
    number? most (Date.padded width n ++ rest) = some (n, rest) := by
  have hempty : (Date.padded width n).isEmpty = false :=
    List.isEmpty_eq_false_iff.mpr (Date.padded_ne_nil width n)
  rw [number?, takeWhile_take_padded hlength hrest]
  simp [hempty, Date.digitsValue_padded]

theorem isBlank_of_isAsciiDigit {c : Char} (h : isAsciiDigit c = true) : isBlank c = false := by
  simp only [isAsciiDigit, Bool.and_eq_true, decide_eq_true_eq] at h
  have hlow : 48 ≤ c.toNat := h.1
  have hhigh : c.toNat ≤ 57 := h.2
  unfold isBlank
  simp
  omega

theorem trimStart_cons {c : Char} (h : isBlank c = false) (rest : List Char) :
    trimStart (c :: rest) = c :: rest := by
  rw [trimStart, List.dropWhile_cons_of_neg (by simp [h])]

theorem trimStart_padded (width n : Nat) (rest : List Char) :
    trimStart (Date.padded width n ++ rest) = Date.padded width n ++ rest := by
  have hall := Date.all_isAsciiDigit_padded width n
  cases hdigits : Date.padded width n with
  | nil => exact absurd hdigits (Date.padded_ne_nil width n)
  | cons c digits =>
    rw [hdigits, List.all_cons, Bool.and_eq_true] at hall
    exact trimStart_cons (isBlank_of_isAsciiDigit hall.1) _

/-! ## 3. Parts -/

theorem field?_padded {n : Nat} (hn : n < 100) {rest : List Char} (hrest : endsDigits rest) :
    field? (Date.padded 2 n ++ rest) = some (n, rest) := by
  have hlength : (Date.padded 2 n).length ≤ 2 := Nat.le_of_eq (Date.length_padded (by decide) hn)
  rw [field?, trimStart_padded, number?_padded hlength hrest]

theorem separator?_cons {mark : Char} (h : isBlank mark = false) (rest : List Char) :
    separator? mark (mark :: rest) = some rest := by
  simp [separator?, trimStart_cons h]

theorem year?_minus (text : List Char) :
    year? ('-' :: text) =
      (number? text.length text).map fun found => (-(found.1 : Int), found.2) := by
  rw [year?, trimStart_cons rfl]
  rfl

theorem year?_plus (text : List Char) :
    year? ('+' :: text) =
      (number? text.length text).map fun found => ((found.1 : Int), found.2) := by
  rw [year?, trimStart_cons rfl]
  rfl

-- A digit is no sign, so what starts with one is a year of four digits.
theorem year?_digit {c : Char} (hc : isAsciiDigit c = true) (text : List Char) :
    year? (c :: text) = (number? 4 (c :: text)).map fun found => ((found.1 : Int), found.2) := by
  rw [year?, trimStart_cons (isBlank_of_isAsciiDigit hc)]
  split
  next heq =>
    rw [(List.cons.inj heq).1] at hc
    exact absurd hc (by decide)
  next heq =>
    rw [(List.cons.inj heq).1] at hc
    exact absurd hc (by decide)
  next => rfl

theorem year?_yearChars (year : Int) {rest : List Char} (hrest : endsDigits rest) :
    year? (Date.yearChars year ++ rest) = some (year, rest) := by
  unfold Date.yearChars
  by_cases hfour : (0 ≤ year && year ≤ 9999) = true
  · rw [if_pos hfour]
    simp only [Bool.and_eq_true, decide_eq_true_eq] at hfour
    have hlength : (Date.padded 4 year.toNat).length ≤ 4 :=
      Nat.le_of_eq (Date.length_padded (by decide) (by omega))
    have hnumber := number?_padded hlength hrest
    have hall := Date.all_isAsciiDigit_padded 4 year.toNat
    cases hdigits : Date.padded 4 year.toNat with
    | nil => exact absurd hdigits (Date.padded_ne_nil 4 _)
    | cons c digits =>
      rw [hdigits, List.all_cons, Bool.and_eq_true] at hall
      rw [hdigits, List.cons_append] at hnumber
      rw [List.cons_append, year?_digit hall.1, hnumber]
      simp [Int.toNat_of_nonneg hfour.1]
  · rw [if_neg hfour]
    simp only [Bool.and_eq_true, decide_eq_true_eq] at hfour
    have hlength : (Date.padded 4 year.natAbs).length ≤
        (Date.padded 4 year.natAbs ++ rest).length := by
      rw [List.length_append]
      omega
    have hnumber := number?_padded hlength hrest
    by_cases hneg : year < 0
    · rw [if_pos hneg, List.cons_append, year?_minus, hnumber]
      show some (-(year.natAbs : Int), rest) = some (year, rest)
      rw [show -(year.natAbs : Int) = year by omega]
    · rw [if_neg hneg, List.cons_append, year?_plus, hnumber]
      show some ((year.natAbs : Int), rest) = some (year, rest)
      rw [show (year.natAbs : Int) = year by omega]

-- The digits that are left out of a fraction are zeros.
theorem fraction?_padded {width n : Nat} (hwidth : 0 < width ∧ width ≤ 9) (hn : n < 10 ^ width)
    {rest : List Char} (hrest : endsDigits rest) :
    fraction? ('.' :: (Date.padded width n ++ rest)) = some (n * 10 ^ (9 - width), rest) := by
  have hlength := Date.length_padded hwidth.1 hn
  have hempty : (Date.padded width n).isEmpty = false :=
    List.isEmpty_eq_false_iff.mpr (Date.padded_ne_nil width n)
  have hdrop : (Date.padded width n ++ rest).drop (Date.padded width n).length = rest := by
    simp
  have hstop : rest.dropWhile isAsciiDigit = rest := by
    have hsplit := List.takeWhile_append_dropWhile (p := isAsciiDigit) (l := rest)
    rwa [takeWhile_of_endsDigits hrest, List.nil_append] at hsplit
  show (if (List.takeWhile isAsciiDigit _).isEmpty then none else some (_, _)) = _
  rw [takeWhile_take_padded (Nat.le_trans (Nat.le_of_eq hlength) hwidth.2) hrest, hempty, hdrop,
    hstop, Date.digitsValue_padded, hlength]
  rfl

/-- A fraction of a second is read back, whichever number of digits it has. -/
theorem fraction?_fractionChars {nanos : Nat} (h : nanos < 1000000000) {rest : List Char}
    (hrest : endsDigits rest) (hdot : rest.head? ≠ some '.') :
    fraction? (fractionChars nanos ++ rest) = some (nanos, rest) := by
  unfold fractionChars
  by_cases hzero : nanos = 0
  · rw [if_pos (by simpa using hzero), List.nil_append, fraction?, hzero]
    intro more heq
    exact hdot (by rw [heq]; rfl)
  · rw [if_neg (by simpa using hzero)]
    by_cases hmilli : nanos % 1000000 = 0
    · rw [if_pos (by simpa using hmilli), List.cons_append,
        fraction?_padded (by decide) (by omega) hrest]
      congr 2
      omega
    · rw [if_neg (by simpa using hmilli)]
      by_cases hmicro : nanos % 1000 = 0
      · rw [if_pos (by simpa using hmicro), List.cons_append,
          fraction?_padded (by decide) (by omega) hrest]
        congr 2
        omega
      · rw [if_neg (by simpa using hmicro), List.cons_append,
          fraction?_padded (by decide) (by omega) hrest]
        congr 2
        omega

/-! ## 4. The whole text -/

-- The day and the time of an instant are read as the instant.
theorem ofLocal?_of_isValid {instant : Instant} (h : instant.isValid = true) {time : Nat}
    (htime : (instant.seconds % 86400).toNat = time) :
    ofLocal? (Date.ofDayNumber (instant.seconds / 86400)) (time / 3600) (time / 60 % 60)
      (time % 60 + instant.nanos / 1000000000) (instant.nanos % 1000000000) 0 = some instant := by
  simp only [isValid, Bool.and_eq_true, Bool.or_eq_true, decide_eq_true_eq] at h
  obtain ⟨hyear, hnanos⟩ := h
  have hguard : ((Date.ofDayNumber (instant.seconds / 86400)).isValid &&
      yearInRange (Date.ofDayNumber (instant.seconds / 86400)).year &&
      decide (time / 3600 < 24) && decide (time / 60 % 60 < 60) &&
      decide (time % 60 + instant.nanos / 1000000000 ≤ 60) &&
      decide ((0 : Int).natAbs < 86400)) = true := by
    rw [Date.isValid_ofDayNumber, hyear]
    simp only [Bool.true_and, Bool.and_eq_true, decide_eq_true_eq]
    refine ⟨⟨⟨?_, ?_⟩, ?_⟩, ?_⟩ <;> omega
  -- second 60 stands for second 59 and for the nanoseconds that go on
  have hshown : (if time % 60 + instant.nanos / 1000000000 == 60 then 59
      else time % 60 + instant.nanos / 1000000000) = time % 60 := by
    simp only [beq_iff_eq]
    split <;> omega
  have hcarried : (instant.nanos % 1000000000 +
      if time % 60 + instant.nanos / 1000000000 == 60 then 1000000000 else 0) =
        instant.nanos := by
    simp only [beq_iff_eq]
    split <;> omega
  have hseconds : (instant.seconds / 86400) * 86400 + ((time / 3600 : Nat) : Int) * 3600 +
      ((time / 60 % 60 : Nat) : Int) * 60 + ((time % 60 : Nat) : Int) - 0 = instant.seconds := by
    have hsplit : time = time / 3600 * 3600 + time / 60 % 60 * 60 + time % 60 := by omega
    omega
  rw [ofLocal?, if_pos hguard]
  dsimp only
  rw [hshown, hcarried, Date.dayNumber_ofDayNumber, hseconds, if_pos hyear]

theorem bind_of_eq_some {α β : Type} {read : Option α} {a : α} (h : read = some a)
    (next : α → Option β) : (read >>= next) = next a := by
  rw [h]
  rfl

theorem endsDigits_fractionChars (nanos : Nat) : endsDigits (fractionChars nanos ++ ['Z']) := by
  unfold fractionChars
  split
  · exact endsDigits_cons rfl _
  · split
    · exact endsDigits_cons rfl _
    · split <;> exact endsDigits_cons rfl _

theorem parse?_text {instant : Instant} (h : instant.isValid = true) :
    parse? instant.text = some instant := by
  have hnanos : instant.nanos / 1000000000 ≤ 1 := by
    simp only [isValid, Bool.and_eq_true, Bool.or_eq_true, decide_eq_true_eq] at h
    omega
  obtain ⟨time, htime⟩ : ∃ time, (instant.seconds % 86400).toNat = time := ⟨_, rfl⟩
  have hlocal := ofLocal?_of_isValid h htime
  have hdate := Date.isValid_bounds (Date.isValid_ofDayNumber (instant.seconds / 86400))
  rw [text, localChars, parse?, String.toList_ofList, Date.chars, htime]
  generalize Date.ofDayNumber (instant.seconds / 86400) = date at *
  simp only [List.append_assoc, List.cons_append]
  -- every part is read on its own
  refine Eq.trans (bind_of_eq_some (year?_yearChars _ (endsDigits_cons rfl _)) _) ?_
  refine Eq.trans (bind_of_eq_some (separator?_cons rfl _) _) ?_
  refine Eq.trans (bind_of_eq_some (field?_padded (by omega) (endsDigits_cons rfl _)) _) ?_
  refine Eq.trans (bind_of_eq_some (separator?_cons rfl _) _) ?_
  refine Eq.trans (bind_of_eq_some (field?_padded (by omega) (endsDigits_cons rfl _)) _) ?_
  refine Eq.trans (bind_of_eq_some (field?_padded (by omega) (endsDigits_cons rfl _)) _) ?_
  refine Eq.trans (bind_of_eq_some (separator?_cons rfl _) _) ?_
  refine Eq.trans (bind_of_eq_some (field?_padded (by omega) (endsDigits_cons rfl _)) _) ?_
  refine Eq.trans (bind_of_eq_some (separator?_cons rfl _) _) ?_
  refine Eq.trans (bind_of_eq_some (field?_padded (by omega) (endsDigits_fractionChars _)) _) ?_
  refine Eq.trans (bind_of_eq_some
    (fraction?_fractionChars (by omega) (endsDigits_cons rfl _) (by decide)) _) ?_
  exact hlocal

/-! ## 5. What is read -/

theorem digitsValue_lt {digits : List Char} (h : digits.all isAsciiDigit = true) :
    Date.digitsValue digits < 10 ^ digits.length := by
  induction digits using List.reverseRecOn with
  | nil => exact Nat.one_pos
  | append_singleton digits c ih =>
    rw [List.all_append, Bool.and_eq_true] at h
    have hc : Date.digitValue c ≤ 9 := by
      have hdigit := h.2
      simp only [List.all_cons, List.all_nil, Bool.and_true, isAsciiDigit, Bool.and_eq_true,
        decide_eq_true_eq] at hdigit
      have hhigh : c.toNat ≤ 57 := hdigit.2
      unfold Date.digitValue
      omega
    have hvalue : Date.digitsValue (digits ++ [c]) =
        10 * Date.digitsValue digits + Date.digitValue c := by
      rw [Date.digitsValue, List.foldl_append]
      rfl
    have hpow := ih h.1
    rw [hvalue, List.length_append, List.length_singleton, Nat.pow_succ]
    omega

theorem fraction?_lt {text rest : List Char} {nanos : Nat}
    (h : fraction? text = some (nanos, rest)) : nanos < 1000000000 := by
  rw [fraction?.eq_def] at h
  split at h
  next more =>
    dsimp only at h
    split at h
    · exact absurd h (by simp)
    · generalize hrun : (more.take 9).takeWhile isAsciiDigit = run at h
      rw [Option.some.injEq, Prod.mk.injEq] at h
      have hall : run.all isAsciiDigit = true := by
        rw [← hrun]
        exact List.all_takeWhile
      have hlength : run.length ≤ 9 := by
        rw [← hrun]
        exact Nat.le_trans (List.takeWhile_sublist _).length_le (List.length_take_le 9 more)
      -- the digits that were read and the zeros that were not are nine
      have hpow : 10 ^ run.length * 10 ^ (9 - run.length) = 1000000000 := by
        rw [← Nat.pow_add, Nat.add_sub_cancel' hlength]
      rw [← h.1, ← hpow]
      exact Nat.mul_lt_mul_of_pos_right (digitsValue_lt hall) (Nat.pow_pos (by decide))
  next =>
    rw [Option.some.injEq, Prod.mk.injEq] at h
    omega

-- Offsets are whole minutes.
theorem offset?_minutes {text rest : List Char} {offset : Int}
    (h : offset? text = some (offset, rest)) : offset % 60 = 0 := by
  rw [offset?.eq_def] at h
  split at h
  · simp at h
    omega
  · simp at h
    omega
  next u t c _ _ _ =>
    split at h
    · simp at h
      omega
    · split at h
      · split at h
        · obtain ⟨⟨minutes, _⟩, -, h⟩ := Option.bind_eq_some_iff.mp h
          have hsize : (if u == '+' then (↑(Date.digitsValue [t, c]) * 3600 + (minutes : Int) * 60)
              else -(↑(Date.digitsValue [t, c]) * 3600 + (minutes : Int) * 60)) = offset :=
            congrArg Prod.fst (Option.some.inj h)
          split at hsize <;> omega
        · exact absurd h (by simp)
      · exact absurd h (by simp)
  · exact absurd h (by simp)

theorem isValid_of_ofLocal? {date : Date} {hour minute second nanos : Nat} {offset : Int}
    {instant : Instant} (hnanos : nanos < 1000000000) (hoffset : offset % 60 = 0)
    (h : ofLocal? date hour minute second nanos offset = some instant) :
    instant.isValid = true := by
  rw [ofLocal?] at h
  split at h
  next hguard =>
    dsimp only at h
    -- second 60 is second 59 of its minute
    obtain ⟨shown, hshown, hleap⟩ : ∃ shown : Nat,
        (if second == 60 then 59 else second) = shown ∧ (second = 60 → shown = 59) :=
      ⟨_, rfl, fun hsixty => by rw [hsixty]; rfl⟩
    rw [hshown] at h
    by_cases hyear : yearInRange (Date.ofDayNumber ((date.dayNumber * 86400 + hour * 3600 +
        minute * 60 + shown - offset) / 86400)).year = true
    · rw [if_pos hyear, Option.some.injEq] at h
      subst h
      simp only [isValid, hyear, Bool.true_and, Bool.or_eq_true, Bool.and_eq_true,
        decide_eq_true_eq]
      by_cases hsixty : second = 60
      · rw [if_pos (by simpa using hsixty)]
        omega
      · rw [if_neg (by simpa using hsixty)]
        omega
    · rw [if_neg hyear] at h
      exact absurd h (by simp)
  next => exact absurd h (by simp)

theorem isValid_of_parse? {text : String} {instant : Instant}
    (h : parse? text = some instant) : instant.isValid = true := by
  rw [parse?] at h
  obtain ⟨⟨year, rest⟩, -, h⟩ := Option.bind_eq_some_iff.mp h
  obtain ⟨rest, -, h⟩ := Option.bind_eq_some_iff.mp h
  obtain ⟨⟨month, rest⟩, -, h⟩ := Option.bind_eq_some_iff.mp h
  obtain ⟨rest, -, h⟩ := Option.bind_eq_some_iff.mp h
  obtain ⟨⟨day, rest⟩, -, h⟩ := Option.bind_eq_some_iff.mp h
  dsimp only at h
  -- what stands between the day and the hour does not matter
  split at h
  all_goals
    obtain ⟨rest, -, h⟩ := Option.bind_eq_some_iff.mp h
    obtain ⟨⟨hour, rest⟩, -, h⟩ := Option.bind_eq_some_iff.mp h
    obtain ⟨rest, -, h⟩ := Option.bind_eq_some_iff.mp h
    obtain ⟨⟨minute, rest⟩, -, h⟩ := Option.bind_eq_some_iff.mp h
    obtain ⟨rest, -, h⟩ := Option.bind_eq_some_iff.mp h
    obtain ⟨⟨second, rest⟩, -, h⟩ := Option.bind_eq_some_iff.mp h
    obtain ⟨⟨nanos, rest⟩, hfraction, h⟩ := Option.bind_eq_some_iff.mp h
    obtain ⟨⟨offset, rest⟩, hoffset, h⟩ := Option.bind_eq_some_iff.mp h
    dsimp only at h
    split at h
    · exact isValid_of_ofLocal? (fraction?_lt hfraction) (offset?_minutes hoffset) h
    · exact absurd h (by simp)

end Scrutiny.Instant
