import DeclOrder.Order.Digraph
import DeclOrder.Order.Table

/-!
# Strongly connected components

One depth-first search numbers the strongly connected components of a digraph. The search keeps
its path as a list of frames, each a node with the edges from it that are still to be followed,
and a stack of the nodes whose component is still open. Every node carries the least discovery
number it is known to lead back to; a node that leads back no further than to itself closes the
component of all nodes above it on the stack. Components are numbered in the order they close, so
edges between components lead to smaller numbers.
-/

namespace DeclOrder.Order

/-- The state of the search. -/
structure Search (size : Nat) where
  /-- The number of each discovered node, in order of discovery. -/
  discovery : Table (Option Nat) size := .all size none
  /-- The least discovery number that each node is known to lead back to. -/
  low : Table Nat size := .all size 0
  /-- The component of each node whose component is closed. -/
  component : Table (Option Nat) size := .all size none
  /-- The discovered nodes whose component is open, the latest first. -/
  stack : List (Fin size) := []
  /-- The number of discovered nodes. -/
  discovered : Nat := 0
  /-- The number of closed components. -/
  closed : Nat := 0

/-- A node on the path of the search, with the targets of its edges still to be followed. -/
structure Frame (size : Nat) where
  /-- The node. -/
  node : Fin size
  /-- The targets still to be followed. -/
  pending : List (Fin size)

namespace Search

variable {size : Nat}

/-- Discover a node. -/
def enter (search : Search size) (node : Fin size) : Search size :=
  { search with
    discovery := search.discovery.put node (some search.discovered)
    low := search.low.put node search.discovered
    stack := node :: search.stack
    discovered := search.discovered + 1 }

/-- Note that a node leads back to the given discovery number. -/
def lower (search : Search size) (node : Fin size) (number : Nat) : Search size :=
  { search with low := search.low.put node (min (search.low.entry node) number) }

/-- Follow an edge to a node discovered before: it leads back there while that node's component
is open. -/
def meet (search : Search size) (source target : Fin size) (number : Nat) : Search size :=
  if (search.component.entry target).isNone then search.lower source number else search

/-- Close the component of the nodes on the stack down to the given one. -/
def close (search : Search size) (node : Fin size) : Search size :=
  let assign (table : Table (Option Nat) size) (member : Fin size) :=
    table.put member (some search.closed)
  { search with
    component := (search.stack.takeWhile (· != node) ++ [node]).foldl assign search.component
    stack := (search.stack.dropWhile (· != node)).drop 1
    closed := search.closed + 1 }

/-- Leave a node whose edges are all followed: its parent on the path leads back as far as it
does, and its component closes if it leads back no further than to itself. -/
def leave (search : Search size) (node : Fin size) (path : List (Frame size)) : Search size :=
  let search := match path with
    | parent :: _ => search.lower parent.node (search.low.entry node)
    | [] => search
  if search.discovery.entry node = some (search.low.entry node) then search.close node else search

/-- The number of nodes not yet discovered. -/
def undiscovered (search : Search size) : Nat := search.discovery.count none

/-- Lowering discovers nothing. -/
@[simp] theorem discovery_lower (search : Search size) (node : Fin size) (number : Nat) :
    (search.lower node number).discovery = search.discovery := rfl

/-- Meeting a node again discovers nothing. -/
@[simp] theorem discovery_meet (search : Search size) (source target : Fin size)
    (number : Nat) : (search.meet source target number).discovery = search.discovery := by
  unfold meet
  split <;> rfl

/-- Leaving a node discovers nothing. -/
@[simp] theorem discovery_leave (search : Search size) (node : Fin size)
    (path : List (Frame size)) : (search.leave node path).discovery = search.discovery := by
  unfold leave
  cases path <;> dsimp only <;> split <;> rfl

/-- Discovering a new node leaves fewer to discover. -/
theorem undiscovered_enter {search : Search size} {node : Fin size}
    (new : search.discovery.entry node = none) :
    (search.enter node).undiscovered < search.undiscovered := by
  have new' : search.discovery[node.val] = none := new
  have found : 0 < search.discovery.count none :=
    Vector.count_pos_iff.mpr (new' ▸ Vector.getElem_mem node.isLt)
  simp only [undiscovered, enter, Table.put]
  rw [Vector.count_set]
  simp only [new', beq_self_eq_true, ↓reduceIte, reduceCtorEq, beq_iff_eq]
  omega

/-- The edges still to be followed on a path, counting each node once more for leaving it. -/
def work (path : List (Frame size)) : Nat :=
  path.foldr (fun frame total => frame.pending.length + 1 + total) 0

/-- Go on with the search along a path until all its nodes are left. -/
def explore (graph : Digraph size) (search : Search size) (path : List (Frame size)) :
    Search size :=
  match path with
  | [] => search
  | ⟨node, []⟩ :: path => explore graph (search.leave node path) path
  | ⟨node, target :: pending⟩ :: path =>
    match _seen : search.discovery.entry target with
    | none =>
      explore graph (search.enter target)
        (⟨target, graph.next target⟩ :: ⟨node, pending⟩ :: path)
    | some number => explore graph (search.meet node target number) (⟨node, pending⟩ :: path)
  termination_by (search.undiscovered, work path)
  decreasing_by
    · simp only [undiscovered, discovery_leave]
      exact Prod.Lex.right _ (by simp [work])
    · exact Prod.Lex.left _ _ (undiscovered_enter _seen)
    · simp only [undiscovered, discovery_meet]
      exact Prod.Lex.right _ (by simp [work])

/-- Search from a root, unless it is discovered already. -/
def visit (graph : Digraph size) (search : Search size) (root : Fin size) : Search size :=
  if (search.discovery.entry root).isNone then
    explore graph (search.enter root) [⟨root, graph.next root⟩]
  else
    search

/-- Search from every node in turn. -/
def run (graph : Digraph size) : Search size :=
  (List.finRange size).foldl (visit graph) {}

end Search

/-- The number of the strongly connected component of each node. -/
def Digraph.components {size : Nat} (graph : Digraph size) : Table Nat size :=
  (Search.run graph).component.map (·.getD 0)

end DeclOrder.Order
