import DeclOrder.Timestamp
import DeclOrder.Toml

/-!
# Values without quotes in TOML

A value that is written without quotes or brackets is one token, which is recognised as a whole: a
truth value, a whole number in one of four bases, another number, or a date, a time or both. Single
underscores may separate the digits of a number.

Of the values that no setting is made of, only their form is checked, and they are kept as they are
written. The form of a whole number asks for little: a mark of a base need not have digits after
it, and once an underscore separates decimal digits, other characters may follow; hexadecimal digits
count as digits beside an underscore in any base.
-/

namespace DeclOrder.Toml

/-- The number that a hexadecimal digit writes. -/
def hexValue? (char : Char) : Option Nat :=
  if char.isDigit then some (char.toNat - '0'.toNat)
  else if 'a' ≤ char ∧ char ≤ 'f' then some (char.toNat - 'a'.toNat + 10)
  else if 'A' ≤ char ∧ char ≤ 'F' then some (char.toNat - 'A'.toNat + 10)
  else none

/-- The number that digits write in a base. -/
def ofDigits (base : Nat) (digits : List Char) : Int :=
  digits.foldl (fun number digit => base * number + (hexValue? digit).getD 0) 0

/-- The text without a sign at its front. -/
def unsigned : List Char → List Char
  | '+' :: rest => rest
  | '-' :: rest => rest
  | rest => rest

/-- The text without its underscores, if each stands between two digits. -/
def joined? (isDigit : Char → Bool) (text : List Char) : Option (List Char) :=
  let apart := (text.zip (text.drop 1)).all fun (char, next) =>
    (char != '_' || isDigit next) && (next != '_' || isDigit char)
  if apart && text.head? != some '_' && text.getLast? != some '_' then
    some (text.filter (· != '_'))
  else none

/-- The character is a digit of a base. -/
def isDigitOf (base : Nat) (char : Char) : Bool := (hexValue? char).any (· < base)

/-- The digits after the mark of a base, of which there may be none. -/
def based? (base : Nat) (text : List Char) : Option (Nat × List Char) :=
  if text.all fun char => char == '_' || isDigitOf base char then
    (joined? (isDigitOf 16) text).map fun digits => (base, digits)
  else none

/-- The text has no zero at its front, or it is one. -/
def isMinimal (text : List Char) : Bool := text.head? != some '0' || text == ['0']

/-- The sign, the digits and what else may follow an underscore in a number without the mark of a
base. -/
def decimal? (text : List Char) : Option (Nat × List Char) :=
  let value := unsigned text
  let isWhole := match value.dropWhile Char.isDigit with
    | [] => !value.isEmpty
    | '_' :: rest => rest.all fun char => !(['.', 'e', 'E', ' '].contains char)
    | _ => false
  if isWhole && isMinimal value then (joined? (isDigitOf 16) text).map fun digits => (10, digits)
  else none

/-- The base and the digits of a text in the form of a whole number. -/
def whole? (text : List Char) : Option (Nat × List Char) :=
  match text with
  | '0' :: 'x' :: rest => based? 16 rest
  | '0' :: 'o' :: rest => based? 8 rest
  | '0' :: 'b' :: rest => based? 2 rest
  | rest => decimal? rest

/-- The number that digits write in a base, if they do. -/
def number? (base : Nat) (digits : List Char) : Option Int :=
  let value := unsigned digits
  if value.isEmpty || !value.all (isDigitOf base) then none
  else if digits.head? = some '-' then some (-ofDigits base value)
  else some (ofDigits base value)

/-- What precedes the first mark in a text, and what follows it if there is one. -/
def cutAt (isMark : Char → Bool) (text : List Char) : List Char × Option (List Char) :=
  let after := match text.dropWhile (!isMark ·) with
    | _ :: rest => some rest
    | [] => none
  (text.takeWhile (!isMark ·), after)

/-- The text writes a number with a fraction, an exponent or both, or one that is not finite. -/
def isReal (text : List Char) : Bool :=
  let isDigits (text : List Char) : Bool :=
    text.all (fun char => char == '_' || char.isDigit) && text.any Char.isDigit
  let inner := unsigned text
  let (mantissa, exponent) := cutAt (fun char => char == 'e' || char == 'E') inner
  let (whole, fraction) := cutAt (· == '.') mantissa
  inner == "inf".toList || inner == "nan".toList ||
    ((fraction.isSome || exponent.isSome) && (joined? Char.isDigit text).isSome &&
      isDigits whole && isMinimal whole &&
      fraction.all isDigits && exponent.all fun power => isDigits (unsigned power))

/-- The number that so many decimal digits write. -/
def fixed? (count : Nat) (text : List Char) : Option Nat :=
  if text.length = count ∧ text.all Char.isDigit then some (Timestamp.ofDigits text) else none

/-- The text writes a day of the calendar. -/
def isDate (text : List Char) : Bool :=
  match text.splitOn '-' with
  | [year, month, day] =>
    match fixed? 4 year, fixed? 2 month, fixed? 2 day with
    | some year, some month, some day => isMoment year month day 0 0 0 0
    | _, _, _ => false
  | _ => false

/-- The text writes a time of the day, whose seconds may be left out. -/
def isTime (text : List Char) : Bool :=
  let isClock (hour minute second : Nat) : Bool := isMoment 1970 1 1 hour minute second 0
  let (clock, fraction) := cutAt (· == '.') text
  match (clock.splitOn ':').map (fixed? 2) with
  | [some hour, some minute] => fraction.isNone && isClock hour minute 0
  | [some hour, some minute, some second] =>
    isClock hour minute second && fraction.all fun digits =>
      !digits.isEmpty && digits.all Char.isDigit
  | _ => false

/-- The text writes an offset from universal time. -/
def isOffset (text : List Char) : Bool :=
  match text with
  | [] => false
  | ['Z'] => true
  | ['z'] => true
  | sign :: clock =>
    (sign == '+' || sign == '-') &&
      match (clock.splitOn ':').map (fixed? 2) with
      | [some hour, some minute] => hour < 24 && minute < 60
      | _ => false

/-- The text writes a date, a time, or a date with a time, which may have an offset. -/
def isDateOrTime (text : List Char) : Bool :=
  let isClockChar (char : Char) : Bool := char.isDigit || char == ':' || char == '.'
  isDate text || isTime text ||
    match text.drop 10 with
    | [] => false
    | divider :: rest =>
      let offset := rest.dropWhile isClockChar
      isDate (text.take 10) && ['T', 't', ' '].contains divider &&
        isTime (rest.takeWhile isClockChar) && (offset.isEmpty || isOffset offset)

/-- The value that a token writes. -/
def ofToken? (token : List Char) : Option Toml :=
  if token = "true".toList then some (.boolean true)
  else if token = "false".toList then some (.boolean false)
  else
    let kept := .plain (String.ofList token)
    match whole? token with
    | some (base, digits) => some ((number? base digits).elim kept .integer)
    | none => if isReal token || isDateOrTime token then some kept else none

/-- The character may stand in a token. -/
def isTokenChar (char : Char) : Bool :=
  !([' ', '\t', '\n', '\r', '#', '=', ',', '[', ']', '\x7b', '\x7d'].contains char)

/-- The token at the front of a text and what follows it. One space may stand between a date and a
time. -/
def token (text : List Char) : List Char × List Char :=
  let front := text.takeWhile isTokenChar
  match text.dropWhile isTokenChar with
  | ' ' :: rest =>
    if isDate front && rest.head?.any isTokenChar then
      (front ++ ' ' :: rest.takeWhile isTokenChar, rest.dropWhile isTokenChar)
    else (front, ' ' :: rest)
  | rest => (front, rest)

/-- Read a value without quotes. -/
def plain? (text : List Char) : Option (Toml × List Char) :=
  (ofToken? (token text).1).map fun value => (value, (token text).2)

end DeclOrder.Toml
