/-!
# Tables of nodes

A table has one entry for each of the nodes of a finite graph.
-/

namespace DeclOrder.Order

/-- One entry for each node. -/
abbrev Table (α : Type) (size : Nat) := Vector α size

namespace Table

variable {α : Type} {size : Nat}

/-- The table with the same entry for every node. -/
def all (size : Nat) (entry : α) : Table α size := Vector.replicate size entry

/-- The entry of a node. -/
def entry (table : Table α size) (node : Fin size) : α := table.get node

/-- The table with another entry for a node. -/
def put (table : Table α size) (node : Fin size) (entry : α) : Table α size :=
  table.set node.val entry node.isLt

/-- The nodes that a table marks, in ascending order. -/
def marked (table : Table Bool size) : List (Fin size) := (List.finRange size).filter table.entry

/-- The entry of a node is that of its number. -/
theorem entry_eq_getElem (table : Table α size) (node : Fin size) :
    table.entry node = table[node.val] := rfl

/-- Every entry of a table with the same entry everywhere is that one. -/
@[simp] theorem entry_all (value : α) (node : Fin size) : (all size value).entry node = value := by
  simp [entry_eq_getElem, all]

/-- The entry put for a node is found there, and the others stay. -/
theorem entry_put (table : Table α size) (node other : Fin size) (value : α) :
    (table.put node value).entry other = if other = node then value else table.entry other := by
  simp only [entry_eq_getElem, put, Vector.getElem_set, Fin.ext_iff, eq_comm]

/-- The nodes that a table marks are those with a true entry. -/
@[simp] theorem mem_marked {table : Table Bool size} {node : Fin size} :
    node ∈ table.marked ↔ table.entry node = true := by
  simp [marked]

/-- The marked nodes come in ascending order. -/
theorem pairwise_marked (table : Table Bool size) : table.marked.Pairwise (· < ·) :=
  (List.pairwise_lt_finRange size).filter _

end Table

end DeclOrder.Order
