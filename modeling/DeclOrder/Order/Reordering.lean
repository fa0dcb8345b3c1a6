import DeclOrder.Block

/-!
# Reorderings

What a strategy makes of a list of blocks: the same blocks in another order, with an account of
the work it took.
-/

namespace DeclOrder.Order

/-- The outcome of a strategy. -/
structure Reordering where
  /-- The blocks in their new order. -/
  blocks : List Block
  /-- The rounds that were made. -/
  passes : Nat
  /-- The blocks that were moved. -/
  relocations : Nat
  /-- The strategy came to its end, rather than to the cap on its rounds. -/
  converged : Bool

end DeclOrder.Order
