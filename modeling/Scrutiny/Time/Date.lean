import Scrutiny.Text.Lines

/-!
Days of the proleptic Gregorian calendar, which has a year zero, and their texts.
-/

namespace Scrutiny

structure Date where
  year : Int
  month : Nat
  day : Nat
  deriving DecidableEq, Repr

namespace Date

/-! ## The calendar -/

def isLeap (year : Int) : Bool :=
  year % 4 == 0 && (year % 100 != 0 || year % 400 == 0)

def daysInMonth (year : Int) (month : Nat) : Nat :=
  if month == 2 then if isLeap year then 29 else 28
  else if month == 4 || month == 6 || month == 9 || month == 11 then 30
  else 31

def isValid (date : Date) : Bool :=
  1 ≤ date.month && date.month ≤ 12 && 1 ≤ date.day &&
    date.day ≤ daysInMonth date.year date.month

/-- Days from the first of March of year zero, counting years from March on. -/
def marchDays (date : Date) : Int :=
  let year := if date.month ≤ 2 then date.year - 1 else date.year
  let month := (date.month + 9) % 12
  365 * year + year / 4 - year / 100 + year / 400 + (153 * month + 2) / 5 + date.day - 1

def dayNumber (date : Date) : Int :=
  date.marchDays - 719468

def ofDayNumber (number : Int) : Date :=
  let shifted := number + 719468
  let era := shifted / 146097
  let dayOfEra := shifted % 146097
  let yearOfEra :=
    (dayOfEra - dayOfEra / 1460 + dayOfEra / 36524 - dayOfEra / 146096) / 365
  let dayOfYear := dayOfEra - (365 * yearOfEra + yearOfEra / 4 - yearOfEra / 100)
  let marchMonth := (5 * dayOfYear + 2) / 153
  let day := dayOfYear - (153 * marchMonth + 2) / 5 + 1
  let month := if marchMonth < 10 then marchMonth + 3 else marchMonth - 9
  let year := yearOfEra + 400 * era + (if month ≤ 2 then 1 else 0)
  ⟨year, month.toNat, day.toNat⟩

/-! ## Texts -/

def padded (width n : Nat) : List Char :=
  let digits := Nat.toDigits 10 n
  List.replicate (width - digits.length) '0' ++ digits

/-- Four digits for the years from 0 to 9999, else a sign and at least four digits. -/
def yearChars (year : Int) : List Char :=
  if 0 ≤ year && year ≤ 9999 then padded 4 year.toNat
  else (if year < 0 then '-' else '+') :: padded 4 year.natAbs

def chars (date : Date) : List Char :=
  yearChars date.year ++ '-' :: padded 2 date.month ++ '-' :: padded 2 date.day

/-- `YYYY-MM-DD`. -/
def text (date : Date) : String :=
  String.ofList date.chars

def digitValue (c : Char) : Nat :=
  c.toNat - 48

def digitsValue (digits : List Char) : Nat :=
  digits.foldl (fun n c => 10 * n + digitValue c) 0

def ofDigits? (year month day : List Char) : Option Date :=
  if (year ++ month ++ day).all Text.isAsciiDigit then
    let date : Date := ⟨digitsValue year, digitsValue month, digitsValue day⟩
    if date.isValid then some date else none
  else none

def parse? (text : String) : Option Date :=
  let chars := text.toList
  let (sign, body) : Int × List Char :=
    match chars with
    | '-' :: rest => (-1, rest)
    | '+' :: rest => (1, rest)
    | rest => (1, rest)
  match Text.splitOn '-' body with
  | [year, month, day] =>
      match ofDigits? ['2', '0', '0', '0'] month day, year.all Text.isAsciiDigit with
      | some read, true =>
          let date : Date := ⟨sign * digitsValue year, read.month, read.day⟩
          if date.isValid then some date else none
      | _, _ => none
  | _ => none

end Date

end Scrutiny
