import DeclOrder.Toml.Plain

/-!
# Quoted text in TOML

Text in double quotes has escapes, text in single quotes has none. Three quotes open text that goes
on over lines: a line break just after them is passed over, and up to two quotes may stand before
the three that close it. There line breaks stay as they are written, and a backslash at the end of a
line takes the white space up to the next text with it.
-/

namespace DeclOrder.Toml

/-- The character is a space or a tab. -/
def isSpace (char : Char) : Bool := char == ' ' || char == '\t'

/-- The character may stand in a line: it is a tab or no control character of ASCII. -/
def isLineChar (char : Char) : Bool :=
  char == '\t' || (0x20 ≤ char.toNat && char.toNat != 0x7F)

/-- What follows a line break, if the text starts with one. -/
def afterBreak? : List Char → Option (List Char)
  | '\n' :: rest => some rest
  | '\r' :: '\n' :: rest => some rest
  | _ => none

/-- The character whose number hexadecimal digits write. -/
def charOfHex? (digits : List Char) : Option Char := do
  let values ← digits.mapM hexValue?
  let code := values.foldl (fun code digit => 16 * code + digit) 0
  if code.isValidChar then some (Char.ofNat code) else none

/-- The character of a one-letter escape. -/
def escaped? (letter : Char) : Option Char :=
  [('b', '\x08'), ('t', '\t'), ('n', '\n'), ('f', '\x0c'), ('r', '\r'), ('e', '\x1b'), ('"', '"'),
    ('\\', '\\')].lookup letter

/-- The number of digits of an escape that is the number of a character. -/
def escapeWidth? (letter : Char) : Option Nat := [('x', 2), ('u', 4), ('U', 8)].lookup letter

/-- The text after the spaces and line breaks at its front. -/
def skipFill : List Char → List Char
  | '\n' :: rest => skipFill rest
  | '\r' :: '\n' :: rest => skipFill rest
  | char :: rest => if isSpace char then skipFill rest else char :: rest
  | [] => []

/-- Skipping makes a text no longer. -/
theorem skipFill_length (text : List Char) : (skipFill text).length ≤ text.length := by
  fun_induction skipFill text <;> simp only [List.length_cons, List.length_nil] <;> omega

/-- The text with its escapes replaced. Over several lines, line breaks may stand in it, and a
backslash before one takes the white space after it away. -/
def unescape? (multiline : Bool) (text : List Char) : Option (List Char) :=
  match text with
  | [] => some []
  | ['\\'] => none
  | '\\' :: letter :: rest =>
    match escaped? letter, escapeWidth? letter with
    | some char, _ => (unescape? multiline rest).map (char :: ·)
    | none, some width => do
      let char ← if width ≤ rest.length then charOfHex? (rest.take width) else none
      (unescape? multiline (rest.drop width)).map (char :: ·)
    | none, none =>
      if multiline && (afterBreak? ((letter :: rest).dropWhile isSpace)).isSome then
        unescape? multiline (skipFill (letter :: rest))
      else none
  | '\r' :: '\n' :: rest =>
    if multiline then (unescape? multiline rest).map ('\r' :: '\n' :: ·) else none
  | char :: rest =>
    if isLineChar char || (multiline && char == '\n') then
      (unescape? multiline rest).map (char :: ·)
    else none
  termination_by text.length
  decreasing_by
    all_goals try have fill := skipFill_length (letter :: rest)
    all_goals simp only [List.length_cons, List.length_drop] at *
    all_goals omega

/-- The text up to the closing quote and what follows it. Where there are escapes, a backslash takes
the next character with it. -/
def upToQuote? (quote : Char) (escapes : Bool) : List Char → Option (List Char × List Char)
  | [] => none
  | [char] => if char = quote then some ([], []) else none
  | char :: next :: rest =>
    if char = quote then some ([], next :: rest)
    else if escapes && char == '\\' then
      (upToQuote? quote escapes rest).map fun (text, rest) => (char :: next :: text, rest)
    else (upToQuote? quote escapes (next :: rest)).map fun (text, rest) => (char :: text, rest)

/-- The text up to three closing quotes and what follows them. -/
def upToQuotes? (quote : Char) (escapes : Bool) : List Char → Option (List Char × List Char)
  | [] => none
  | char :: rest =>
    let quotes := (char :: rest).takeWhile (· == quote)
    if 3 ≤ quotes.length then
      let inner := min 2 (quotes.length - 3)
      some (quotes.take inner, (char :: rest).drop (inner + 3))
    else if escapes && char == '\\' then
      match rest with
      | [] => none
      | next :: rest =>
        (upToQuotes? quote escapes rest).map fun (text, rest) => (char :: next :: text, rest)
    else (upToQuotes? quote escapes rest).map fun (text, rest) => (char :: text, rest)

/-- The text without escapes, if its characters may stand in it. -/
def verbatim? (multiline : Bool) (text : List Char) : Option (List Char) :=
  match text with
  | [] => some []
  | '\r' :: '\n' :: rest =>
    if multiline then (verbatim? multiline rest).map ('\r' :: '\n' :: ·) else none
  | char :: rest =>
    if isLineChar char || (multiline && char == '\n') then
      (verbatim? multiline rest).map (char :: ·)
    else none

/-- The text between quotes and what follows it, where the opening quote is read already. -/
def inLine? (quote : Char) (rest : List Char) : Option (String × List Char) := do
  let (text, rest) ← upToQuote? quote (quote == '"') rest
  let text ← if quote = '"' then unescape? false text else verbatim? false text
  return (String.ofList text, rest)

/-- The text between three quotes and what follows it, where the opening quotes are read
already. -/
def overLines? (quote : Char) (rest : List Char) : Option (String × List Char) := do
  let (text, rest) ← upToQuotes? quote (quote == '"') ((afterBreak? rest).getD rest)
  let text ← if quote = '"' then unescape? true text else verbatim? true text
  return (String.ofList text, rest)

end DeclOrder.Toml
