import DeclOrder.Order.Window
import DeclOrder.Order.Reordering

/-!
# Local repair

The strategy that disturbs a generated order least. Each pass looks for the first block out of its
window, moves the block at the end of that window to its place, and starts over; the order is
settled when every block stands in its window. Nothing bounds the passes on a cyclic graph, so a
cap does.
-/

namespace DeclOrder.Order.Repair

/-- Every block stands in its window. -/
def settled (blocks : List Block) : Bool :=
  (windows blocks).zipIdx.all fun (window, place) => window.contains place

/-- The first place whose block is out of its window, and the end of that window. -/
def misplaced? (blocks : List Block) : Option (Nat × Nat) :=
  blocks.zipIdx.findSome? fun (block, place) =>
    let window := window blocks block
    if window.contains place then none else some (place, window.earliestDependent)

/-- The blocks with the one at the source moved to the target. -/
def relocate (source target : Nat) (blocks : List Block) : List Block :=
  match blocks[source]? with
  | some block => (blocks.eraseIdx source).insertIdx target block
  | none => blocks

/-- The order after one repair, or nothing to repair. -/
def step? (blocks : List Block) : Option (List Block) :=
  (misplaced? blocks).map fun (target, source) => relocate source target blocks

/-- Repair at most `cap` more times after `moved` repairs. A pass that finds nothing to repair
ends the work; at the cap, the last repair may have settled the order. -/
def repairFrom (moved : Nat) : (cap : Nat) → List Block → Reordering
  | 0, blocks => { blocks, passes := moved, relocations := moved, converged := settled blocks }
  | cap + 1, blocks =>
    match step? blocks with
    | none => { blocks, passes := moved + 1, relocations := moved, converged := true }
    | some next => repairFrom (moved + 1) cap next

/-- Repair the order in at most `cap` passes. -/
def reorder (cap : Nat) (blocks : List Block) : Reordering := repairFrom 0 cap blocks

end DeclOrder.Order.Repair
