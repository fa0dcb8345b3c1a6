import DeclOrder.Text.Blank

/-!
# Lines of a text

A line ends at a line feed, and a carriage return just before the line feed belongs to the
terminator. What follows the last line feed is a line unless it is empty, and it keeps a carriage
return at its end, since no line feed follows. `LineEnding.detect` reads the terminator of a text
off its first line, and `unlines` writes lines back with one terminator after each.
-/

namespace DeclOrder.Text

/-- The terminators a text can use. -/
inductive LineEnding where
  /-- A line feed. -/
  | lf
  /-- A carriage return and a line feed. -/
  | crlf
  deriving DecidableEq, Repr, Inhabited

/-- The characters of a terminator. -/
def LineEnding.text : LineEnding → String
  | .lf => "\n"
  | .crlf => "\r\n"

/-- The terminator of the first line, a line feed if the text has no complete line. -/
def LineEnding.detect (text : String) : LineEnding :=
  match text.toList.splitOn '\n' with
  | first :: _ :: _ => if first.getLast? = some '\r' then .crlf else .lf
  | _ => .lf

/-- A line that a line feed ended, without the carriage return of its terminator. -/
def dropReturn (line : List Char) : List Char :=
  if line.getLast? = some '\r' then line.dropLast else line

/-- The lines of a text, without their terminators. -/
def lines (text : String) : List String :=
  let pieces := text.toList.splitOn '\n'
  let ended := pieces.dropLast.map dropReturn
  let last := pieces.getLast?.toList.filter (!·.isEmpty)
  (ended ++ last).map String.ofList

/-- The lines, each followed by the terminator. -/
def unlines (ending : LineEnding) (lines : List String) : String :=
  String.join (lines.map (· ++ ending.text))

end DeclOrder.Text
