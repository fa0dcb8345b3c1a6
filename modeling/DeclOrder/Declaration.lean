import DeclOrder.Text.Word
import DeclOrder.Text.Blank

/-!
# Lines that declare

A generated module declares a model with a line that starts at column zero with the marker
`class `. After the declarations may stand one statement per model whose forward references are
to be settled once every name is known. This module recognises both kinds of line, reads the name
off the first and writes the second.
-/

namespace DeclOrder

/-- What a line that opens a declaration starts with. -/
def classMarker : String := "class "

/-- The call that settles the forward references of a model. -/
def forwardCall : String := ".update_forward_refs()"

/-- The line opens a declaration. -/
def opensDeclaration (line : String) : Bool := classMarker.toList.isPrefixOf line.toList

/-- The name that a line declares: what follows the marker up to the first parenthesis, or up to
the first colon where there is no parenthesis, without blank characters around it. A line without
the marker is read from its start. -/
def declaredName (line : String) : String :=
  let rest := (Text.after? classMarker.toList line.toList).getD line.toList
  let stop := if rest.contains '(' then '(' else ':'
  String.ofList (Text.trim (rest.takeWhile (· != stop)))

/-- The statement that settles the forward references of the named model. -/
def forwardStatement (name : String) : String := name ++ forwardCall

/-- The line is a statement for one word as a name, with nothing but blank characters after it. -/
def isForwardStatement (line : String) : Bool :=
  let chars := line.toList
  let rest := chars.dropWhile Text.isWordChar
  match Text.after? forwardCall.toList rest with
  | some tail => !(chars.takeWhile Text.isWordChar).isEmpty && tail.all Text.isBlank
  | none => false

end DeclOrder
