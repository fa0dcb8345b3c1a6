/-!
# JSON values

The values that a report is exchanged as, and their text: two spaces of indentation, a line per
item, empty containers closed at once, and only quotes, backslashes and control characters
escaped. Fields keep their order.

A record can be written as an object of its fields by name, or as an array of its fields in their
order. `Record` reads either.
-/

namespace DeclOrder

/-- A JSON value. -/
inductive Json where
  /-- The absent value. -/
  | null
  /-- A truth value. -/
  | boolean (value : Bool)
  /-- A number written without fraction or exponent. -/
  | integer (value : Int)
  /-- Any other number: a mantissa, and the number of its digits that are a fraction. -/
  | decimal (mantissa : Int) (places : Nat)
  /-- A text. -/
  | string (value : String)
  /-- A list of values. -/
  | array (items : List Json)
  /-- Named values in order. -/
  | object (fields : List (String × Json))
  deriving Inhabited

namespace Json

/-- A digit of base sixteen in lower case. -/
def hexDigit (digit : Nat) : Char := Nat.digitChar digit

/-- The text of a character inside quotes. -/
def escapeChar (char : Char) : String :=
  if char = '"' then "\\\""
  else if char = '\\' then "\\\\"
  else if char = '\n' then "\\n"
  else if char = '\r' then "\\r"
  else if char = '\t' then "\\t"
  else if char = '\x08' then "\\b"
  else if char = '\x0c' then "\\f"
  else if char.toNat < 0x20 then
    "\\u00" ++ String.ofList [hexDigit (char.toNat / 16), hexDigit (char.toNat % 16)]
  else String.ofList [char]

/-- A text in quotes. -/
def quote (text : String) : String :=
  "\"" ++ String.join (text.toList.map escapeChar) ++ "\""

/-- A number with the given digits after the point. -/
def decimalText (mantissa : Int) (places : Nat) : String :=
  let digits := (toString mantissa.natAbs).toList
  let padded := List.replicate (places + 1 - digits.length) '0' ++ digits
  let whole := padded.length - places
  (if mantissa < 0 then "-" else "") ++ String.ofList (padded.take whole) ++ "." ++
    String.ofList (padded.drop whole)

/-- The start of a line at the given depth of nesting. -/
def newLine (depth : Nat) : String := "\n" ++ String.ofList (List.replicate (2 * depth) ' ')

mutual

/-- The text of a value that starts at the given depth of nesting. -/
def render (depth : Nat) : Json → String
  | .null => "null"
  | .boolean value => if value then "true" else "false"
  | .integer value => toString value
  | .decimal mantissa places => decimalText mantissa places
  | .string value => quote value
  | .array items =>
    match items with
    | [] => "[]"
    | first :: rest =>
      "[" ++ newLine (depth + 1) ++ render (depth + 1) first ++
        renderItems (depth + 1) rest ++ newLine depth ++ "]"
  | .object fields =>
    match fields with
    | [] => "\x7b\x7d"
    | (name, value) :: rest =>
      "\x7b" ++ newLine (depth + 1) ++ quote name ++ ": " ++ render (depth + 1) value ++
        renderFields (depth + 1) rest ++ newLine depth ++ "\x7d"

/-- The text of the items after the first. -/
def renderItems (depth : Nat) : List Json → String
  | [] => ""
  | item :: rest => "," ++ newLine depth ++ render depth item ++ renderItems depth rest

/-- The text of the fields after the first. -/
def renderFields (depth : Nat) : List (String × Json) → String
  | [] => ""
  | (name, value) :: rest =>
    "," ++ newLine depth ++ quote name ++ ": " ++ render depth value ++ renderFields depth rest

end

/-- The text of a value. -/
def pretty (value : Json) : String := render 0 value

/-- A number of sixty-four bits. -/
def ofWord (word : UInt64) : Json := .integer word.toNat

/-- Read a text. -/
def string? : Json → Option String
  | .string value => some value
  | _ => none

/-- Read a truth value. -/
def boolean? : Json → Option Bool
  | .boolean value => some value
  | _ => none

/-- Read a number of sixty-four bits. -/
def word? : Json → Option UInt64
  | .integer value =>
    if 0 ≤ value ∧ value < UInt64.size then some (UInt64.ofNat value.toNat) else none
  | _ => none

/-- Read a list, each item by the given reader. -/
def list? {α : Type} (item? : Json → Option α) : Json → Option (List α)
  | .array items => items.mapM item?
  | _ => none

/-- Read a value that may be null. -/
def nullable? {α : Type} (value? : Json → Option α) : Json → Option (Option α)
  | .null => some none
  | value => (value? value).map some

/-- Read one of several alternatives by its name: a text, or an object whose one field has the
name and nothing in it. -/
def alternative? {α : Type} (ofName? : String → Option α) : Json → Option α
  | .string name => ofName? name
  | .object [(name, .null)] => ofName? name
  | _ => none

/-- The fields of a record. -/
inductive Record where
  /-- Fields by name. -/
  | named (fields : List (String × Json))
  /-- Fields in their order, those at the end left out. -/
  | listed (items : List Json)

/-- Read the fields of a record that has so many of them. -/
def record? (size : Nat) : Json → Option Record
  | .object fields => some (.named fields)
  | .array items => if items.length ≤ size then some (.listed items) else none
  | _ => none

/-- The field with a place and a name. -/
def Record.field? (record : Record) (place : Nat) (name : String) : Option Json :=
  match record with
  | .named fields => fields.lookup name
  | .listed items => items[place]?

/-- Read a field that must be there. -/
def Record.required {α : Type} (record : Record) (place : Nat) (name : String)
    (value? : Json → Option α) : Option α :=
  (record.field? place name).bind value?

/-- Read a field that has a default where it is left out. -/
def Record.optional {α : Type} (record : Record) (place : Nat) (name : String) (default : α)
    (value? : Json → Option α) : Option α :=
  match record.field? place name with
  | some value => value? value
  | none => some default

end Json

end DeclOrder
