import DeclOrder.Duplicate

/-!
# Summaries

What processing did to one module, in the numbers and names that a report shows.
-/

namespace DeclOrder

/-- A block that ended in another place than the one it had before ordering. -/
structure Move where
  /-- The name of the block. -/
  name : String
  /-- The place before ordering. -/
  source : UInt64
  /-- The place after ordering. -/
  target : UInt64
  deriving DecidableEq, Repr

/-- What processing did to one module. -/
structure Summary where
  /-- The key of the strategy. -/
  strategy : String
  /-- The number of blocks in the text. -/
  blocksIn : UInt64
  /-- The number of blocks written. -/
  blocksOut : UInt64
  /-- The duplicates taken out. -/
  collapsed : List Duplicate
  /-- The names of the blocks taken out as built-in. -/
  dropped : List String
  /-- The names of the blocks whose version field was constrained. -/
  constrained : List String
  /-- The blocks that moved, in their final order. -/
  moves : List Move
  /-- The names with a forward statement. -/
  forwardReferences : List String
  /-- The rounds that ordering took. -/
  passes : UInt64
  /-- Ordering came to its end. -/
  converged : Bool
  deriving DecidableEq, Repr

end DeclOrder
