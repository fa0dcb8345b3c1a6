import DeclOrder.Text.Ends

/-!
# Blank characters

The white space that lines are trimmed of and that separates the parts of an annotation: the
Unicode property `White_Space`, which has the no-break and ideographic spaces but neither the
zero-width space nor the byte order mark. `trim` takes them off both ends of a text, and
`dropBlankTail` takes blank lines off the end of a list of lines.
-/

namespace DeclOrder.Text

/-- The character has the Unicode property `White_Space`. -/
def isBlank (char : Char) : Bool :=
  let code := char.toNat
  (0x09 ≤ code && code ≤ 0x0D) || code == 0x20 || code == 0x85 || code == 0xA0 ||
    code == 0x1680 || (0x2000 ≤ code && code ≤ 0x200A) || code == 0x2028 || code == 0x2029 ||
    code == 0x202F || code == 0x205F || code == 0x3000

/-- The characters without the blank ones at either end. -/
def trim (chars : List Char) : List Char := strip isBlank chars

/-- Every character of the line is blank. -/
def isBlankLine (line : String) : Bool := line.toList.all isBlank

/-- The lines without the blank ones at the end. -/
def dropBlankTail (lines : List String) : List String := dropTailWhile isBlankLine lines

end DeclOrder.Text
