import Scrutiny.Time.Date

/-!
Instants of universal time with nanoseconds.  They are written in the extended form
`YYYY-MM-DDThh:mm:ss[.fraction]Z` and read in a more generous one: any offset, blanks between
the parts, and one or two digits where two are written.
-/

namespace Scrutiny

/-- An instant: seconds since the first of January 1970, and nanoseconds.  Within a leap second
the nanoseconds go on counting from a thousand million. -/
structure Instant where
  seconds : Int
  nanos : Nat
  deriving DecidableEq, Repr

namespace Instant

/-! ## Writing -/

/-- The shortest of 0, 3, 6 and 9 digits that is exact. -/
def fractionChars (nanos : Nat) : List Char :=
  if nanos == 0 then []
  else if nanos % 1000000 == 0 then '.' :: Date.padded 3 (nanos / 1000000)
  else if nanos % 1000 == 0 then '.' :: Date.padded 6 (nanos / 1000)
  else '.' :: Date.padded 9 nanos

def localChars (instant : Instant) : List Char :=
  let date := Date.ofDayNumber (instant.seconds / 86400)
  let time := (instant.seconds % 86400).toNat
  let leap := instant.nanos / 1000000000
  date.chars ++ 'T' :: Date.padded 2 (time / 3600) ++ ':' :: Date.padded 2 (time / 60 % 60) ++
    ':' :: Date.padded 2 (time % 60 + leap) ++ fractionChars (instant.nanos % 1000000000)

def text (instant : Instant) : String :=
  String.ofList (instant.localChars ++ ['Z'])

def offsetText (instant : Instant) : String :=
  String.ofList (instant.localChars ++ "+00:00".toList)

/-! ## Reading -/

def number? (most : Nat) (text : List Char) : Option (Nat × List Char) :=
  let run := (text.take most).takeWhile Text.isAsciiDigit
  if run.isEmpty then none else some (Date.digitsValue run, text.drop run.length)

def field? (text : List Char) : Option (Nat × List Char) :=
  number? 2 (Text.trimStart text)

def year? (text : List Char) : Option (Int × List Char) :=
  match Text.trimStart text with
  | '-' :: rest => (number? rest.length rest).map fun (n, rest) => (-(n : Int), rest)
  | '+' :: rest => (number? rest.length rest).map fun (n, rest) => ((n : Int), rest)
  | rest => (number? 4 rest).map fun (n, rest) => ((n : Int), rest)

def separator? (mark : Char) (text : List Char) : Option (List Char) :=
  match Text.trimStart text with
  | c :: rest => if c == mark then some rest else none
  | [] => none

/-- A fraction of a second in nanoseconds; digits after the ninth are dropped. -/
def fraction? : List Char → Option (Nat × List Char)
  | '.' :: rest =>
      let run := (rest.take 9).takeWhile Text.isAsciiDigit
      if run.isEmpty then none
      else
        some (Date.digitsValue run * Nat.pow 10 (9 - run.length),
          (rest.drop run.length).dropWhile Text.isAsciiDigit)
  | rest => some (0, rest)

def offsetMinutes? : List Char → Option (Nat × List Char)
  | a :: b :: rest =>
      if '0' ≤ a && a ≤ '5' && Text.isAsciiDigit b then
        some (Date.digitsValue [a, b], rest)
      else none
  | _ => none

def offset? : List Char → Option (Int × List Char)
  | 'Z' :: rest => some (0, rest)
  | 'z' :: rest => some (0, rest)
  | u :: t :: c :: rest =>
      if [u, t, c].map Text.upperAscii == ['U', 'T', 'C'] then some (0, rest)
      else if u == '+' || u == '-' || u == '−' then
        if Text.isAsciiDigit t && Text.isAsciiDigit c then do
          let afterHours := rest.dropWhile fun c => c == ':' || Text.isBlank c
          let (minutes, rest) ← offsetMinutes? afterHours
          let size : Int := Date.digitsValue [t, c] * 3600 + minutes * 60
          pure (if u == '+' then size else -size, rest)
        else none
      else none
  | _ => none

def yearInRange (year : Int) : Bool :=
  -262143 ≤ year && year ≤ 262142

/-- The instant of a local date and time of day under an offset.  Second 60 is a leap second. -/
def ofLocal? (date : Date) (hour minute second nanos : Nat) (offset : Int) : Option Instant :=
  if date.isValid && yearInRange date.year && hour < 24 && minute < 60 && second ≤ 60 &&
      offset.natAbs < 86400 then
    let leap := second == 60
    let seconds : Int :=
      date.dayNumber * 86400 + hour * 3600 + minute * 60 + (if leap then 59 else second) - offset
    if yearInRange (Date.ofDayNumber (seconds / 86400)).year then
      some ⟨seconds, nanos + if leap then 1000000000 else 0⟩
    else none
  else none

def parse? (text : String) : Option Instant := do
  let (year, rest) ← year? text.toList
  let rest ← separator? '-' rest
  let (month, rest) ← field? rest
  let rest ← separator? '-' rest
  let (day, rest) ← field? rest
  let rest ← match rest with
    | 't' :: rest => some rest
    | 'T' :: rest => some rest
    | ' ' :: rest => some rest
    | _ => none
  let (hour, rest) ← field? rest
  let rest ← separator? ':' rest
  let (minute, rest) ← field? rest
  let rest ← separator? ':' rest
  let (second, rest) ← field? rest
  let (nanos, rest) ← fraction? rest
  let (offset, rest) ← offset? (Text.trimStart rest)
  if Text.isBlankText rest then ofLocal? ⟨year, month, day⟩ hour minute second nanos offset
  else none

end Instant

end Scrutiny
