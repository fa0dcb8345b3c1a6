import DeclOrder.Block

/-!
# Dependency windows

Under an order of the blocks, the window of a block reaches from the last of the blocks that it
refers to up to the first block that refers to it. A reference is to the first block of its name.
A block in its window stands after all it depends on, and before all that depends on it.
-/

namespace DeclOrder.Order

/-- The places that one block may take under the current order. -/
structure Window where
  /-- The place of the first block that refers to this one, or the last place if none does. -/
  earliestDependent : Nat
  /-- The last place among the blocks that this one refers to, or 0 if there are none. -/
  latestDependency : Nat
  deriving DecidableEq, Repr

/-- The place lies in the window, its ends included. -/
def Window.contains (window : Window) (place : Nat) : Bool :=
  window.latestDependency ≤ place && place ≤ window.earliestDependent

/-- The place of the first block of the name. -/
def place? (blocks : List Block) (name : String) : Option Nat :=
  blocks.findIdx? (·.name == name)

/-- The place of the first block that refers to the name. -/
def firstDependent? (blocks : List Block) (name : String) : Option Nat :=
  blocks.findIdx? (decide <| name ∈ ·.references)

/-- The window of a block under the order of the blocks. -/
def window (blocks : List Block) (block : Block) : Window where
  earliestDependent := (firstDependent? blocks block.name).getD (blocks.length - 1)
  latestDependency := ((block.references.names.filterMap (place? blocks)).max?).getD 0

/-- The windows of all blocks, in their order. -/
def windows (blocks : List Block) : List Window := blocks.map (window blocks)

end DeclOrder.Order
