import DeclOrder.Order.Window

/-!
# Reference graphs

A digraph on the places of a list of blocks: an edge leads from a block to the first block of each
name that it refers to. Names without a block have no edge.
-/

namespace DeclOrder.Order

/-- A finite directed graph by lists of successors; loops and parallel edges are allowed. -/
structure Digraph (size : Nat) where
  /-- Where the edges from a node lead, in the order they are followed. -/
  successors : Vector (List (Fin size)) size

namespace Digraph

variable {size : Nat}

/-- The successors of a node. -/
def next (graph : Digraph size) (node : Fin size) : List (Fin size) := graph.successors.get node

/-- An edge leads from the first node to the second. -/
def Edge (graph : Digraph size) (source target : Fin size) : Prop := target ∈ graph.next source

instance (graph : Digraph size) (source target : Fin size) :
    Decidable (graph.Edge source target) :=
  inferInstanceAs (Decidable (target ∈ graph.next source))

/-- The graph of references between blocks. -/
def ofBlocks (blocks : List Block) : Digraph blocks.length where
  successors := Vector.ofFn fun place =>
    (blocks.get place).references.names.filterMap fun name =>
      blocks.findFinIdx? (·.name == name)

end Digraph

end DeclOrder.Order
