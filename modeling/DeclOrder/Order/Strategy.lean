import DeclOrder.Order.Repair
import DeclOrder.Order.Schedule

/-!
# Strategies

The ways to bring the blocks of a module into order, and the keys they are chosen by.
-/

namespace DeclOrder.Order

/-- A way to bring blocks into order. -/
inductive Strategy where
  /-- Scheduling by strongly connected components. -/
  | components
  /-- Local repair of dependency windows. -/
  | window
  deriving DecidableEq, Repr

namespace Strategy

/-- The key that chooses a strategy. -/
def key : Strategy → String
  | .components => "scc"
  | .window => "window"

/-- What a strategy does, in a line. -/
def description : Strategy → String
  | .components => "Topological order over strongly connected components; always converges"
  | .window => "Minimal local repair; keeps generated positions where dependencies allow"

/-- Every run of the strategy puts what does not depend on itself after its dependencies. -/
def converges : Strategy → Bool
  | .components => true
  | .window => false

/-- The strategies in the order of their keys. -/
def all : List Strategy := [.components, .window]

/-- The strategy of a key. -/
def ofKey? (key : String) : Option Strategy := all.find? (·.key == key)

/-- The key of the strategy used where none is chosen. -/
def defaultKey : String := window.key

/-- The cap on repair passes where none is chosen. -/
def defaultPasses : UInt64 := 1000

/-- Bring blocks into order by the strategy, with a cap on repair passes. -/
def reorder (strategy : Strategy) (cap : Nat) (blocks : List Block) : Reordering :=
  match strategy with
  | .components => Schedule.reorder blocks
  | .window => Repair.reorder cap blocks

end Strategy

end DeclOrder.Order
