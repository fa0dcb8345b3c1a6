import DeclOrder.Order.Agenda
import DeclOrder.Order.Reordering

/-!
# Scheduling by components

The strategy that always settles: the strongly connected components of the reference graph come
out one after another, each after every other component it has an edge into. Of the components
that may come next, the one with the earliest member does, so an order that is right already comes
back unchanged. Within a component the blocks keep their order.
-/

namespace DeclOrder.Order

namespace Digraph

variable {size : Nat}

/-- One more than the greatest number of a component. -/
def numberCount (components : Table Nat size) : Nat := (components.toList.max?.map (· + 1)).getD 0

/-- The number of a component is less than their count. -/
theorem entry_lt_numberCount (components : Table Nat size) (node : Fin size) :
    components.entry node < numberCount components := by
  have listed : components.entry node ∈ components.toList :=
    Vector.mem_toList_iff.mpr (Vector.getElem_mem node.isLt)
  obtain ⟨greatest, found⟩ := Option.isSome_iff_exists.mp (List.isSome_max?_of_mem listed)
  have below := List.le_max?_getD_of_mem (k := 0) listed
  rw [found, Option.getD_some] at below
  simpa [numberCount, found] using Nat.lt_succ_of_le below

/-- The number of the component of a node, as one below their count. -/
def numbered (components : Table Nat size) : Table (Fin (numberCount components)) size :=
  Vector.ofFn fun node => ⟨components.entry node, entry_lt_numberCount components node⟩

/-- The components in the order they are scheduled. No more rounds are needed than there are
nodes. -/
def schedule (graph : Digraph size) : List (List (Fin size)) :=
  (Agenda.ofGraph graph (numbered graph.components)).run size

end Digraph

namespace Schedule

/-- The places of the blocks in the order they are scheduled. -/
def order (blocks : List Block) : List (Fin blocks.length) :=
  (Digraph.ofBlocks blocks).schedule.flatten

/-- Order the blocks by the schedule of their components. -/
def reorder (blocks : List Block) : Reordering :=
  let order := order blocks
  { blocks := order.map blocks.get
    passes := 1
    relocations := order.zipIdx.countP fun (place, target) => place.val != target
    converged := true }

end Schedule

end DeclOrder.Order
