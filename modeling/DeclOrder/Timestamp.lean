import DeclOrder.Text.Blank

/-!
# Timestamps

A moment in universal time by the Gregorian calendar, to the nanosecond; the second sixty is a
leap second. The text of a moment is that of RFC 3339 with `Z` as its offset, with three, six or
nine digits of a fraction or none, as few as write it out. Reading allows any offset, a lower-case
`t` or a space before the time, and blanks between the parts.
-/

namespace DeclOrder

/-- The year has a twenty-ninth of February. -/
def isLeapYear (year : Int) : Bool := year % 4 == 0 && (year % 100 != 0 || year % 400 == 0)

/-- The number of days of a month. -/
def daysInMonth (year : Int) (month : Nat) : Nat :=
  if month = 2 then if isLeapYear year then 29 else 28
  else if [4, 6, 9, 11].contains month then 30
  else 31

/-- The fields name a day of the calendar and a time of the day, in a year within reach. -/
def isMoment (year : Int) (month day hour minute second nanosecond : Nat) : Bool :=
  (-262143 ≤ year && year ≤ 262142) && (1 ≤ month && month ≤ 12) &&
    (1 ≤ day && day ≤ daysInMonth year month) &&
    (hour < 24 && minute < 60 && second ≤ 60 && nanosecond < 1000000000)

/-- A moment in universal time. -/
structure Timestamp where
  /-- The year. -/
  year : Int
  /-- The month, from 1. -/
  month : Nat
  /-- The day of the month, from 1. -/
  day : Nat
  /-- The hour. -/
  hour : Nat
  /-- The minute. -/
  minute : Nat
  /-- The second, 60 being a leap second. -/
  second : Nat
  /-- The nanosecond. -/
  nanosecond : Nat
  /-- The fields name a moment. -/
  exists_moment : isMoment year month day hour minute second nanosecond = true
  deriving DecidableEq

namespace Timestamp

/-- The first moment of the year 1970. -/
def epoch : Timestamp := ⟨1970, 1, 1, 0, 0, 0, 0, by decide⟩

/-- The moment that the fields name. -/
def ofFields? (year : Int) (month day hour minute second nanosecond : Nat) : Option Timestamp :=
  if named : isMoment year month day hour minute second nanosecond = true then
    some ⟨year, month, day, hour, minute, second, nanosecond, named⟩
  else none

/-- A number in decimal digits, filled up with zeros to a width. -/
def padded (width number : Nat) : String :=
  let digits := Nat.toDigits 10 number
  String.ofList (List.replicate (width - digits.length) '0' ++ digits)

/-- The text of a year: four digits, with a sign where more or a negative number are needed. -/
def yearText (year : Int) : String :=
  if 0 ≤ year ∧ year ≤ 9999 then padded 4 year.toNat
  else (if year < 0 then "-" else "+") ++ padded 4 year.natAbs

/-- The text of the fraction of a second. -/
def fractionText (nanosecond : Nat) : String :=
  if nanosecond = 0 then ""
  else if nanosecond % 1000000 = 0 then "." ++ padded 3 (nanosecond / 1000000)
  else if nanosecond % 1000 = 0 then "." ++ padded 6 (nanosecond / 1000)
  else "." ++ padded 9 nanosecond

/-- The text of a moment. -/
def text (time : Timestamp) : String :=
  yearText time.year ++ "-" ++ padded 2 time.month ++ "-" ++ padded 2 time.day ++ "T" ++
    padded 2 time.hour ++ ":" ++ padded 2 time.minute ++ ":" ++ padded 2 time.second ++
    fractionText time.nanosecond ++ "Z"

/-- The number that decimal digits write. -/
def ofDigits (digits : List Char) : Nat :=
  digits.foldl (fun number digit => 10 * number + (digit.toNat - '0'.toNat)) 0

/-- The digits at the front of a text, at most so many, and what follows them. -/
def digits? (most : Nat) (text : List Char) : Option (List Char × List Char) :=
  match (text.take most).takeWhile Char.isDigit with
  | [] => none
  | digits => some (digits, text.drop digits.length)

/-- Skip blanks, and read a number of at most so many digits. -/
def number? (most : Nat) (text : List Char) : Option (Nat × List Char) :=
  (digits? most (text.dropWhile Text.isBlank)).map fun (digits, rest) => (ofDigits digits, rest)

/-- Skip blanks, and read a mark. -/
def mark? (mark : Char) (text : List Char) : Option (List Char) :=
  Text.after? [mark] (text.dropWhile Text.isBlank)

/-- Skip blanks, and read a year, which has four digits unless a sign precedes it. -/
def year? (text : List Char) : Option (Int × List Char) :=
  match text.dropWhile Text.isBlank with
  | '-' :: rest => (digits? rest.length rest).map fun (digits, rest) => (-ofDigits digits, rest)
  | '+' :: rest => (digits? rest.length rest).map fun (digits, rest) => (ofDigits digits, rest)
  | rest => (number? 4 rest).map fun (year, rest) => (year, rest)

/-- Read the fraction of a second in nanoseconds; digits after the ninth are passed over. -/
def fraction? (text : List Char) : Option (Nat × List Char) :=
  match text with
  | '.' :: rest => do
    let (digits, rest) ← digits? 9 rest
    let nanosecond := ofDigits (digits ++ List.replicate (9 - digits.length) '0')
    return (nanosecond, rest.dropWhile Char.isDigit)
  | rest => some (0, rest)

/-- Read an offset from universal time, in minutes. -/
def offset? (text : List Char) : Option (Int × List Char) :=
  match text with
  | [] => none
  | sign :: rest =>
    if sign = 'Z' ∨ sign = 'z' then some (0, rest)
    else if sign.toLower = 'u' then
      match rest with
      | second :: third :: rest =>
        if second.toLower = 't' ∧ third.toLower = 'c' then some (0, rest) else none
      | _ => none
    else if ['+', '-', '−'].contains sign then do
      let (hours, rest) ← digits? 2 rest
      let rest := rest.dropWhile fun char => char == ':' || Text.isBlank char
      let (minutes, rest) ← digits? 2 rest
      let total := ofDigits hours * 60 + ofDigits minutes
      if hours.length = 2 ∧ minutes.length = 2 ∧ ofDigits minutes < 60 ∧ total < 1440 then
        some (if sign = '+' then (total, rest) else (-total, rest))
      else none
    else none

/-- The day after a day. -/
def nextDay (year : Int) (month day : Nat) : Int × Nat × Nat :=
  if day < daysInMonth year month then (year, month, day + 1)
  else if month < 12 then (year, month + 1, 1)
  else (year + 1, 1, 1)

/-- The day before a day. -/
def previousDay (year : Int) (month day : Nat) : Int × Nat × Nat :=
  if 1 < day then (year, month, day - 1)
  else if 1 < month then (year, month - 1, daysInMonth year (month - 1))
  else (year - 1, 12, 31)

/-- The moment whose clock shows the given time where clocks are ahead of universal time by the
offset, which is less than a day. -/
def less? (time : Timestamp) (offset : Int) : Option Timestamp :=
  let minutes : Int := time.hour * 60 + time.minute - offset
  let (year, month, day) :=
    if minutes < 0 then previousDay time.year time.month time.day
    else if 1440 ≤ minutes then nextDay time.year time.month time.day
    else (time.year, time.month, time.day)
  let minute := (minutes % 1440).toNat
  ofFields? year month day (minute / 60) (minute % 60) time.second time.nanosecond

/-- The moment that a text names. -/
def ofText? (text : String) : Option Timestamp := do
  let (year, rest) ← year? text.toList
  let (month, rest) ← number? 2 (← mark? '-' rest)
  let (day, rest) ← number? 2 (← mark? '-' rest)
  let rest ← match rest with
    | divider :: rest => if ['T', 't', ' '].contains divider then some rest else none
    | [] => none
  let (hour, rest) ← number? 2 rest
  let (minute, rest) ← number? 2 (← mark? ':' rest)
  let (second, rest) ← number? 2 (← mark? ':' rest)
  let (nanosecond, rest) ← fraction? rest
  let (offset, rest) ← offset? (rest.dropWhile Text.isBlank)
  let shown ← ofFields? year month day hour minute second nanosecond
  if rest.all Text.isBlank then shown.less? offset else none

/-- The year, the month and the day that lie so many days after the first of March of the year 0.
Years that begin with March have their leap day at the end; four hundred of them have 146097 days,
and five months in a row have 153. -/
def dayOfMarchEra (days : Int) : Int × Nat × Nat :=
  let era := days / 146097
  let dayOfEra := (days % 146097).toNat
  let yearOfEra := (dayOfEra - dayOfEra / 1460 + dayOfEra / 36524 - dayOfEra / 146096) / 365
  let dayOfYear := dayOfEra - (365 * yearOfEra + yearOfEra / 4 - yearOfEra / 100)
  let place := (5 * dayOfYear + 2) / 153
  let day := dayOfYear - (153 * place + 2) / 5 + 1
  let month := if place < 10 then place + 3 else place - 9
  (era * 400 + yearOfEra + if month ≤ 2 then 1 else 0, month, day)

/-- The moment so many seconds and nanoseconds after the first moment of the year 1970. -/
def ofUnix? (seconds : Int) (nanosecond : Nat) : Option Timestamp :=
  let (year, month, day) := dayOfMarchEra (seconds / 86400 + 719468)
  let second := (seconds % 86400).toNat
  ofFields? year month day (second / 3600) (second / 60 % 60) (second % 60) nanosecond

end Timestamp

end DeclOrder
