import DeclOrder.NameSet
import DeclOrder.Text.Blank

/-!
# Declaration blocks

A block is one declaration: its name and its lines, the signature first, together with the names
that its body mentions and those of them that it depends on.
-/

namespace DeclOrder

/-- One declaration of a module. -/
structure Block where
  /-- The declared name. -/
  name : String
  /-- The signature and the body, verbatim. -/
  lines : List String
  /-- Every token of the body that looks like the name of a declaration. -/
  mentions : NameSet := ∅
  /-- The mentioned names that the module declares, the block's own left out. -/
  references : NameSet := ∅
  /-- The body mentions the block's own name. -/
  refersToSelf : Bool := false
  deriving DecidableEq, Inhabited

namespace Block

/-- A block of a signature alone. -/
def opening (name signature : String) : Block := { name, lines := [signature] }

/-- The lines after the signature. -/
def body (block : Block) : List String := block.lines.drop 1

/-- The block with one more line at its end. -/
def push (block : Block) (line : String) : Block := { block with lines := block.lines ++ [line] }

/-- The block without the blank lines at its end; the signature stays even if it is blank. -/
def trimmed (block : Block) : Block :=
  { block with lines := block.lines.take 1 ++ Text.dropBlankTail block.body }

end Block

end DeclOrder
