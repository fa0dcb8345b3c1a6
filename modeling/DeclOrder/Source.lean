import DeclOrder.Block
import DeclOrder.Declaration
import DeclOrder.Text.Lines

/-!
# Source texts

A source is a generated module split at its declarations: a preamble, the declaration blocks, and
the forward statements found after the first declaration, which are set aside because they are
worked out anew. `Source.ofText` reads a text line by line and `Source.toText` writes the source
back with two blank lines before every block and before the statements.
-/

namespace DeclOrder

/-- One generated module. -/
structure Source where
  /-- The lines before the first declaration. -/
  preamble : List String := []
  /-- The declarations in order. -/
  blocks : List Block := []
  /-- The forward statements found after the first declaration. -/
  staleStatements : List String := []
  /-- The terminator of the text's first line. -/
  ending : Text.LineEnding := .lf
  deriving Inhabited

namespace Source

/-- The names of the blocks in order. -/
def blockNames (source : Source) : List String := source.blocks.map (·.name)

/-- The set of declared names. -/
def declaredNames (source : Source) : NameSet := NameSet.ofList source.blockNames

/-- A source that is being read: what is complete, and the block that is still open. -/
structure Reader where
  /-- All that was read before the open block. -/
  done : Source
  /-- The block whose lines are being read, absent before the first declaration. -/
  current : Option Block

/-- The source read so far, with the open block closed at its last line that is not blank. -/
def Reader.close (reader : Reader) : Source :=
  match reader.current with
  | none => reader.done
  | some block => { reader.done with blocks := reader.done.blocks ++ [block.trimmed] }

/-- Read one more line: it opens a block, or it belongs to the preamble, to the stale statements
or to the open block. -/
def Reader.next (reader : Reader) (line : String) : Reader :=
  if opensDeclaration line then
    { done := reader.close, current := some (Block.opening (declaredName line) line) }
  else
    match reader.current with
    | none =>
      { reader with done.preamble := reader.done.preamble ++ [line] }
    | some block =>
      if isForwardStatement line then
        { reader with done.staleStatements := reader.done.staleStatements ++ [line] }
      else
        { reader with current := some (block.push line) }

/-- The source that a text holds. -/
def ofText (text : String) : Source :=
  let start : Reader := { done := { ending := Text.LineEnding.detect text }, current := none }
  ((Text.lines text).foldl Reader.next start).close

/-- The blank lines between blocks and before the forward statements. -/
def separator : List String := ["", ""]

/-- The lines of two neighbours with the separator between them; nothing separates lines from the
top of the text. -/
def separate (above below : List String) : List String :=
  if above.isEmpty then below else above ++ separator ++ below

/-- The lines of a source with one forward statement for each name at the end. A source without
blocks is its preamble alone. -/
def toLines (source : Source) (forward : List String) : List String :=
  if source.blocks.isEmpty then
    source.preamble
  else
    let declared := (source.blocks.map (·.lines)).foldl separate
      (Text.dropBlankTail source.preamble)
    if forward.isEmpty then declared
    else declared ++ separator ++ forward.map forwardStatement

/-- The text of a source with one forward statement for each name at the end, every line ended in
the way of the text that was read. -/
def toText (source : Source) (forward : List String) : String :=
  Text.unlines source.ending (source.toLines forward)

end Source

end DeclOrder
