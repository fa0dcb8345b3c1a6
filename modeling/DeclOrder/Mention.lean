import DeclOrder.NameSet
import DeclOrder.Text.Blank
import DeclOrder.Text.Word

/-!
# Mentioned names

The names that the lines of a body mention, found by three scans of each line that know nothing
of which names are declared: the annotation of a field up to its first bracket, the first two
entries of every innermost bracket, and the first alternative of an optional union. The scans
collect too much, such as the names of containers; resolution keeps what is declared.
-/

namespace DeclOrder.Mention

/-- The annotation of a field as far as it goes without brackets and blanks, and of it what
precedes a call, a default or a comma. -/
def scalarToken? (line : List Char) : Option (List Char) :=
  let field := line.dropWhile Text.isBlank
  if (field.takeWhile Text.isWordChar).isEmpty then none
  else do
    let named := (field.dropWhile Text.isWordChar).dropWhile Text.isBlank
    let annotated ← Text.after? [':'] named
    let token := (annotated.dropWhile Text.isBlank).takeWhile fun char =>
      !(Text.isBlank char || char == '[' || char == ']')
    if token.isEmpty then none
    else some (token.takeWhile fun char => !(['(', '=', ','].contains char))

/-- The contents of the innermost brackets that are not empty, from left to right. What was read
since the last opening bracket is `pending`, in reverse. -/
def innermostGroups (pending : Option (List Char)) : List Char → List (List Char)
  | [] => []
  | char :: rest =>
    if char = '[' then innermostGroups (some []) rest
    else if char = ']' then
      match pending with
      | some (last :: earlier) => (last :: earlier).reverse :: innermostGroups none rest
      | _ => innermostGroups none rest
    else innermostGroups (pending.map (char :: ·)) rest

/-- The first two entries of every innermost bracket. -/
def bracketTokens (line : List Char) : List (List Char) :=
  (innermostGroups none line).flatMap fun group => (group.splitOn ',').take 2

/-- What opens an optional union. -/
def unionOpening : String := "Optional[Union["

/-- The character goes on with the alternative of a union. -/
def inAlternative (char : Char) : Bool := !(char == ',' || char == ']')

/-- The first alternatives of the optional unions, from left to right: what follows the opening up
to a comma or a closing bracket, if that is anything. -/
def unionTokens : List Char → List (List Char)
  | [] => []
  | char :: rest =>
    match _opened : Text.after? unionOpening.toList (char :: rest) with
    | none => unionTokens rest
    | some inside =>
      match inside.takeWhile inAlternative with
      | [] => unionTokens rest
      | token => token :: unionTokens (inside.dropWhile inAlternative)
  termination_by line => line.length
  decreasing_by
    · simp
    · simp
    · have whole := congrArg List.length (Text.after?_eq_some_iff.mp _opened)
      have shorter := (inside.dropWhile_sublist inAlternative).length_le
      have opening : unionOpening.toList.length = 15 := by decide
      simp only [List.length_cons, List.length_append] at whole ⊢
      omega

/-- The name that a token mentions: the token without blanks and quotes around it, unless it is
empty or carries a qualifier. -/
def name? (token : List Char) : Option String :=
  let isQuote (char : Char) : Bool := char == '\x27' || char == '"'
  let name := Text.trim (Text.strip isQuote (Text.trim token))
  if name.isEmpty || name.contains '.' then none else some (String.ofList name)

/-- The names that one line mentions, in the order of the scans. -/
def namesOfLine (line : String) : List String :=
  let chars := line.toList
  ((scalarToken? chars).toList ++ bracketTokens chars ++ unionTokens chars).filterMap name?

/-- The set with the names that a line mentions. -/
def addLine (set : NameSet) (line : String) : NameSet := set.insertAll (namesOfLine line)

/-- The names that the lines mention. -/
def ofLines (lines : List String) : NameSet := lines.foldl addLine ∅

end DeclOrder.Mention
