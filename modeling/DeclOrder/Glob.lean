/-!
# Glob patterns

A pattern matches whole paths character by character: `?` takes one character, `*` any run,
`[...]` one of the listed characters or ranges and `[!...]` one that is not listed, none of them a
slash. `**` stands for any number of whole directories and has to be a whole component; a slash
after it belongs to it. Every other character stands for itself, dots included.
-/

namespace DeclOrder.Glob

/-- An item of a bracket. -/
inductive Item where
  /-- One character. -/
  | single (char : Char)
  /-- The characters between two, both included. -/
  | range (first last : Char)
  deriving DecidableEq, Repr

/-- A part of a pattern. -/
inductive Token where
  /-- The character itself. -/
  | literal (char : Char)
  /-- Any one character. -/
  | any
  /-- Any run of characters. -/
  | run
  /-- Any number of whole directories. -/
  | directories
  /-- One of the characters. -/
  | within (items : List Item)
  /-- One character that is none of these. -/
  | except (items : List Item)
  deriving DecidableEq, Repr

/-- What is wrong with a pattern. -/
inductive Fault where
  /-- Three stars or more in a row. -/
  | tooManyStars
  /-- Two stars that are not a whole component. -/
  | partialComponent
  /-- A bracket that is not closed or has nothing in it. -/
  | invalidRange
  deriving DecidableEq, Repr

/-- The wording of a fault. -/
def Fault.message : Fault → String
  | .tooManyStars => "wildcards are either regular `*` or recursive `**`"
  | .partialComponent => "recursive wildcards must form a single path component"
  | .invalidRange => "invalid range pattern"

/-- A fault and the number of characters before it. -/
structure SyntaxError where
  /-- The place of the fault. -/
  position : Nat
  /-- The fault. -/
  fault : Fault
  deriving DecidableEq, Repr

/-- The wording of an error. -/
def SyntaxError.message (error : SyntaxError) : String :=
  s!"Pattern syntax error near position {error.position}: " ++ error.fault.message

/-- The items that the inside of a bracket lists; a hyphen between two characters makes a
range. -/
def items : List Char → List Item
  | first :: '-' :: last :: rest => .range first last :: items rest
  | char :: rest => .single char :: items rest
  | [] => []

/-- The inside of a bracket, which has one character at least and ends before the next closing
bracket, and what follows the bracket. -/
def inside? (text : List Char) : Option (List Char × List Char) :=
  match text with
  | [] => none
  | first :: rest =>
    match rest.dropWhile (· != ']') with
    | [] => none
    | _ :: after => some (first :: rest.takeWhile (· != ']'), after)

/-- What follows a bracket is shorter than the bracket and it. -/
theorem inside?_length {text inner rest : List Char} (found : inside? text = some (inner, rest)) :
    rest.length < text.length := by
  unfold inside? at found
  split at found
  · exact absurd found (by simp)
  · next first tail =>
    have shorter := (tail.dropWhile_sublist (· != ']')).length_le
    split at found
    · exact absurd found (by simp)
    · next close after ends =>
      simp only [Option.some.injEq, Prod.mk.injEq] at found
      rw [ends, found.2] at shorter
      simp only [List.length_cons] at shorter ⊢
      omega

/-- The tokens of a pattern from a place on, where `before` is the character before it. -/
def compileFrom (position : Nat) (before : Option Char) (text : List Char) :
    Except SyntaxError (List Token) :=
  match text with
  | [] => .ok []
  | '?' :: rest => (compileFrom (position + 1) (some '?') rest).map (.any :: ·)
  | '*' :: '*' :: '*' :: _ => .error ⟨position + 2, .tooManyStars⟩
  | '*' :: '*' :: rest =>
    if before.any (· != '/') then .error ⟨position - 1, .partialComponent⟩
    else
      match rest with
      | [] => .ok [.directories]
      | '/' :: rest => (compileFrom (position + 3) (some '/') rest).map (.directories :: ·)
      | _ => .error ⟨position + 2, .partialComponent⟩
  | '*' :: rest => (compileFrom (position + 1) (some '*') rest).map (.run :: ·)
  | '[' :: '!' :: rest =>
    match _found : inside? rest with
    | some (inner, after) =>
      (compileFrom (position + inner.length + 3) (some ']') after).map (.except (items inner) :: ·)
    | none => .error ⟨position, .invalidRange⟩
  | '[' :: rest =>
    match _found : inside? rest with
    | some (inner, after) =>
      (compileFrom (position + inner.length + 2) (some ']') after).map (.within (items inner) :: ·)
    | none => .error ⟨position, .invalidRange⟩
  | char :: rest => (compileFrom (position + 1) (some char) rest).map (.literal char :: ·)
  termination_by text.length
  decreasing_by
    all_goals try have shorter := inside?_length _found
    all_goals simp only [List.length_cons]; omega

/-- The tokens of a pattern. -/
def compile (pattern : String) : Except SyntaxError (List Token) :=
  compileFrom 0 none pattern.toList

/-- The item lists the character. -/
def Item.holds (item : Item) (char : Char) : Bool :=
  match item with
  | .single listed => listed == char
  | .range first last => first ≤ char && char ≤ last

/-- The token matches the one character. -/
def Token.takes (token : Token) (char : Char) : Bool :=
  match token with
  | .literal expected => expected == char
  | .any => char != '/'
  | .within items => char != '/' && items.any (·.holds char)
  | .except items => char != '/' && !items.any (·.holds char)
  | .run | .directories => false

/-- What a row becomes for a run of characters before its tokens. -/
def runRow : List Char → List Bool → List Bool
  | char :: rest, here :: later =>
    let later := runRow rest later
    (here || (char != '/' && later.headD false)) :: later
  | _, row => row

/-- Which suffixes of a text have a slash with a match after it, or a match at their end. -/
def slashRow : List Char → List Bool → List Bool
  | char :: rest, _ :: later =>
    let further := slashRow rest later
    ((char == '/' && later.headD false) || further.headD false) :: further
  | _, row => row

/-- What a row becomes for a token before its tokens. Directories may end at any slash, or with the
text. -/
def Token.row (token : Token) (text : List Char) (row : List Bool) : List Bool :=
  match token with
  | .run => runRow text row
  | .directories => row.zipWith (· || ·) (slashRow text row)
  | token => (text.zip (row.drop 1)).map (fun (char, later) => token.takes char && later) ++ [false]

/-- Which suffixes of a text, the longest first, the tokens match as a whole. Each token goes over
the row of those after it once, so many runs in a pattern cost no more than as many characters. -/
def matchRow : List Token → List Char → List Bool
  | [], text => text.map (fun _ => false) ++ [true]
  | token :: tokens, text => token.row text (matchRow tokens text)

/-- The tokens match the whole text. -/
def isMatch (tokens : List Token) (text : List Char) : Bool := (matchRow tokens text).headD false

/-- A row has an entry for the empty suffix at least. -/
theorem matchRow_ne_nil (tokens : List Token) (text : List Char) : matchRow tokens text ≠ [] := by
  induction tokens with
  | nil => simp [matchRow]
  | cons token tokens ih =>
    obtain ⟨here, later, filled⟩ := List.exists_cons_of_ne_nil ih
    cases token <;> cases text <;> simp [matchRow, Token.row, filled, runRow, slashRow]

/-- The row of a text goes on with the row of the text without its first character. -/
theorem matchRow_cons (tokens : List Token) (char : Char) (rest : List Char) :
    matchRow tokens (char :: rest) = isMatch tokens (char :: rest) :: matchRow tokens rest := by
  unfold isMatch
  induction tokens with
  | nil => rfl
  | cons token tokens ih =>
    obtain ⟨here, later, filled⟩ := List.exists_cons_of_ne_nil (matchRow_ne_nil tokens rest)
    rw [matchRow, matchRow, ih, filled]
    cases token <;> simp [Token.row, runRow, slashRow]

/-- Without tokens only the empty text matches. -/
theorem isMatch_nil (text : List Char) : isMatch [] text = text.isEmpty := by
  cases text <;> rfl

/-- A token for one character takes the first, and the tokens after it the rest. -/
theorem isMatch_takes (token : Token) (tokens : List Token) (char : Char) (rest : List Char)
    (single : token ≠ .run ∧ token ≠ .directories) :
    isMatch (token :: tokens) (char :: rest) = (token.takes char && isMatch tokens rest) := by
  rw [isMatch, matchRow, matchRow_cons, isMatch.eq_def tokens rest]
  obtain ⟨here, later, filled⟩ := List.exists_cons_of_ne_nil (matchRow_ne_nil tokens rest)
  cases token <;> simp_all [Token.row]

/-- The text as a pattern that matches nothing else. -/
def escape (text : String) : String :=
  String.join <| text.toList.map fun char =>
    if ['?', '*', '[', ']'].contains char then "[" ++ String.ofList [char] ++ "]"
    else String.ofList [char]

end DeclOrder.Glob
