import DeclOrder.Text.Ends
import DeclOrder.Toml
import DeclOrder.Toml.Quoted

/-!
# Reading TOML documents

A document is a list of lines: headers, which open tables, and keys with values, which belong to
the table of the last header. Values that go on over lines do so by themselves. Readers take the
text and return what they read with what follows it.
-/

namespace DeclOrder.Toml

/-- The text without a comment at its front. -/
def skipComment : List Char → List Char
  | '#' :: rest => rest.dropWhile isLineChar
  | rest => rest

/-- The text after the spaces, comments and line breaks at its front. -/
def skipGap (text : List Char) : List Char :=
  match text with
  | '\n' :: rest => skipGap rest
  | '\r' :: '\n' :: rest => skipGap rest
  | '#' :: rest => skipGap (rest.dropWhile isLineChar)
  | char :: rest => if isSpace char then skipGap rest else char :: rest
  | [] => []
  termination_by text.length
  decreasing_by
    all_goals try have shorter := (rest.dropWhile_sublist isLineChar).length_le
    all_goals simp only [List.length_cons]; omega

/-- What follows the rest of a line that has nothing but a comment in it. -/
def endLine? (text : List Char) : Option (List Char) :=
  match skipComment (text.dropWhile isSpace) with
  | [] => some []
  | rest => afterBreak? rest

/-- The character may stand in a name without quotes. -/
def isNameChar (char : Char) : Bool := char.isAlphanum || char == '_' || char == '-'

/-- Read a name. -/
def name? (text : List Char) : Option (String × List Char) :=
  match text with
  | '"' :: rest => inLine? '"' rest
  | '\x27' :: rest => inLine? '\x27' rest
  | rest =>
    match rest.takeWhile isNameChar with
    | [] => none
    | chars => some (String.ofList chars, rest.dropWhile isNameChar)

/-- Read the names of a key, at most so many, and the spaces around them. -/
def key? : Nat → List Char → Option (List String × List Char)
  | 0, _ => none
  | count + 1, text => do
    let (name, rest) ← name? (text.dropWhile isSpace)
    match rest.dropWhile isSpace with
    | '.' :: rest =>
      let (names, rest) ← key? count rest
      return (name :: names, rest)
    | rest => return ([name], rest)

/-- Read a value that holds no others. -/
def scalar? (text : List Char) : Option (Toml × List Char) :=
  let ofText := fun (text, rest) => (Toml.string text, rest)
  match text with
  | '"' :: '"' :: '"' :: rest => (overLines? '"' rest).map ofText
  | '"' :: rest => (inLine? '"' rest).map ofText
  | '\x27' :: '\x27' :: '\x27' :: rest => (overLines? '\x27' rest).map ofText
  | '\x27' :: rest => (inLine? '\x27' rest).map ofText
  | rest => plain? rest

/-- The number of values that one may lie in, and of names in a key. -/
def nestingLimit : Nat := 80

mutual

/-- Read a value that holds others to the given depth, in a text of at most so many parts. -/
def value? (depth : Nat) : Nat → List Char → Option (Toml × List Char)
  | 0, _ => none
  | bound + 1, text =>
    match depth, text with
    | depth + 1, '[' :: rest => items? depth bound [] (skipGap rest)
    | depth + 1, '\x7b' :: rest => fields? depth bound [] (skipGap rest)
    | _, rest => scalar? rest

/-- Read the rest of an array, whose items so far are listed with the latest first. -/
def items? (depth : Nat) : Nat → List Toml → List Char → Option (Toml × List Char)
  | 0, _, _ => none
  | bound + 1, items, text =>
    match text with
    | ']' :: rest => some (.array items.reverse, rest)
    | text => do
      let (item, rest) ← value? depth bound text
      match skipGap rest with
      | ',' :: rest => items? depth bound (item :: items) (skipGap rest)
      | ']' :: rest => return (.array (item :: items).reverse, rest)
      | _ => none

/-- Read the rest of a table between braces with the fields so far. -/
def fields? (depth : Nat) : Nat → Fields → List Char → Option (Toml × List Char)
  | 0, _, _ => none
  | bound + 1, fields, text =>
    match text with
    | '\x7d' :: rest => some (.table .inline fields, rest)
    | text => do
      let (key, rest) ← key? nestingLimit text
      let rest ← Text.after? ['='] (skipGap rest)
      let (value, rest) ← value? depth bound (skipGap rest)
      let fields ← assign? fields key value
      match skipGap rest with
      | ',' :: rest => fields? depth bound fields (skipGap rest)
      | '\x7d' :: rest => return (.table .inline fields, rest)
      | _ => none

end

/-- A document that is being read. -/
structure Reader where
  /-- The fields so far. -/
  fields : Fields := []
  /-- The last header. -/
  header : List String := []

/-- Read a header, whose opening bracket is read already. -/
def Reader.header? (reader : Reader) (text : List Char) : Option (Reader × List Char) := do
  let (header, rest) ← key? nestingLimit text
  let rest ← Text.after? [']'] rest
  let fields ← openTable? reader.fields header
  return ({ fields, header }, rest)

/-- Read a key with its value. -/
def Reader.definition? (reader : Reader) (text : List Char) : Option (Reader × List Char) := do
  let (key, rest) ← key? nestingLimit text
  let rest ← Text.after? ['='] rest
  let (value, rest) ← value? nestingLimit (text.length + 1) (rest.dropWhile isSpace)
  let fields ← within? (assign? · key value) reader.header reader.fields
  return ({ reader with fields }, rest)

/-- Read the line at the front of a text. -/
def Reader.line? (reader : Reader) (text : List Char) : Option (Reader × List Char) := do
  match endLine? text with
  | some rest => return (reader, rest)
  | none =>
    let (reader, rest) ← match text.dropWhile isSpace with
      | '[' :: rest => reader.header? rest
      | rest => reader.definition? rest
    return (reader, ← endLine? rest)

/-- Read the lines of a text, at most so many. -/
def Reader.lines? (reader : Reader) : Nat → List Char → Option Reader
  | _, [] => some reader
  | 0, _ => none
  | count + 1, text => do
    let (reader, rest) ← reader.line? text
    Reader.lines? reader count rest

/-- The fields of the document that a text holds; a byte order mark may precede it. -/
def ofText? (text : String) : Option Fields := do
  let chars := match text.toList with
    | '\uFEFF' :: chars => chars
    | chars => chars
  let reader ← Reader.lines? {} chars.length chars
  return reader.fields

end DeclOrder.Toml
