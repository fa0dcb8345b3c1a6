import DeclOrder.Text.WordRanges

/-!
# Words

A word character is a letter, a mark, a decimal digit, a connector such as `_`, or a joiner. Words
are the longest runs of word characters; a word boundary lies where a word character meets a
character of another kind or an end of the text.
-/

namespace DeclOrder.Text

/-- The character belongs to words. ASCII is decided by its four classes, the rest by the
ranges of the Unicode properties. -/
def isWordChar (char : Char) : Bool :=
  let code := char.toNat
  if code < 0x80 then
    (0x61 ≤ code && code ≤ 0x7A) || (0x41 ≤ code && code ≤ 0x5A) ||
      (0x30 ≤ code && code ≤ 0x39) || code == 0x5F
  else
    inWordRanges code

/-- The text is one word: word characters, at least one. -/
def isWord (text : String) : Bool := !text.isEmpty && text.toList.all isWordChar

/-- A word boundary lies between two neighbours, where `none` is an end of the text. -/
def isBoundary (before after : Option Char) : Bool :=
  before.any isWordChar != after.any isWordChar

end DeclOrder.Text
