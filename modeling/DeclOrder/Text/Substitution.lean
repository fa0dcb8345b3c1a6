import DeclOrder.Text.Word

/-!
# Whole-word substitution

`replaceWhole` puts a replacement for every occurrence of a name that has a word boundary on
either side, from left to right and without overlaps. The replacement is given as a template, in
which `$` introduces a group: `$name` takes the longest run of ASCII letters, digits and
underscores, `${name}` everything up to the brace. Group zero is the name replaced, every other
group is empty, and `$$` is a dollar sign; a `$` that introduces nothing stands for itself.
-/

namespace DeclOrder.Text

/-- The character may stand in the name of a group written without braces. -/
def isGroupChar (char : Char) : Bool := char.isAlphanum || char == '_'

/-- The group is the whole match: its name is the number zero, in any number of digits and
with or without a plus sign. -/
def isWholeGroup (group : List Char) : Bool :=
  let digits := match group with
    | '+' :: digits => digits
    | digits => digits
  !digits.isEmpty && digits.all (· == '0')

/-- The text of a group in a template filled in for the match. -/
def groupText (whole group : List Char) : List Char :=
  if isWholeGroup group then whole else []

/-- The template with its groups filled in, where group zero is the match. -/
def expandTemplate (whole : List Char) : List Char → List Char
  | [] => []
  | '$' :: '$' :: rest => '$' :: expandTemplate whole rest
  | '$' :: '{' :: rest =>
    if rest.contains '}' then
      groupText whole (rest.takeWhile (· != '}')) ++
        expandTemplate whole ((rest.dropWhile (· != '}')).drop 1)
    else
      '$' :: expandTemplate whole ('{' :: rest)
  | '$' :: rest =>
    match rest.takeWhile isGroupChar with
    | [] => '$' :: expandTemplate whole rest
    | group => groupText whole group ++ expandTemplate whole (rest.dropWhile isGroupChar)
  | char :: rest => char :: expandTemplate whole rest
  termination_by template => template.length
  decreasing_by
    all_goals
      have braces := (rest.dropWhile_sublist (· != '}')).length_le
      have letters := (rest.dropWhile_sublist isGroupChar).length_le
      simp only [List.length_cons, List.length_drop]
      omega

/-- The name stands at the front of the text, with a word boundary on either side, where
`before` is the character that the text follows. -/
def standsWhole (name : List Char) (before : Option Char) (text : List Char) : Bool :=
  name.isPrefixOf text && isBoundary before text.head? &&
    isBoundary name.getLast? (text.drop name.length).head?

/-- The text with the replacement put for each whole occurrence of the name, where `before` is
the character that the text follows. -/
def replaceWhole (name replacement : List Char) (before : Option Char) :
    List Char → List Char
  | [] => []
  | char :: rest =>
    if standsWhole name before (char :: rest) then
      replacement ++ replaceWhole name replacement name.getLast? (rest.drop (name.length - 1))
    else
      char :: replaceWhole name replacement (some char) rest
  termination_by text => text.length
  decreasing_by
    all_goals simp only [List.length_cons, List.length_drop]; omega

/-- The line with the template put for each whole occurrence of the name. -/
def substitute (name template line : String) : String :=
  let replacement := expandTemplate name.toList template.toList
  String.ofList (replaceWhole name.toList replacement none line.toList)

end DeclOrder.Text
