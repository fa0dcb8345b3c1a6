import DeclOrder.Proofs.Order.Components
import Mathlib.Algebra.BigOperators.Group.Finset.Basic
import Mathlib.Algebra.Order.BigOperators.Group.Finset
import Mathlib.Data.Setoid.Basic
import Mathlib.SetTheory.Cardinal.Finite

/-!
# The search ends, and its numbers are those of the components

Each turn of the search either follows one edge or leaves one node, and no edge is followed and no
node left twice. So a search along a path ends after no more turns than the graph has nodes and
edges, besides those that the path has left to do. By then every node has a component, and the
numbers in use are those below the number of strongly connected components.
-/

namespace DeclOrder.Order

namespace Search

variable {size : Nat} {graph : Digraph size} {search : Search size}

/-- One turn of the search: an edge is followed, or the first node of the path is left. -/
def turn (graph : Digraph size) :
    Search size × List (Frame size) → Search size × List (Frame size)
  | (search, []) => (search, [])
  | (search, ⟨node, []⟩ :: path) => (search.leave node path, path)
  | (search, ⟨node, target :: pending⟩ :: path) =>
    match search.discovery.entry target with
    | none => (search.enter target, ⟨target, graph.next target⟩ :: ⟨node, pending⟩ :: path)
    | some number => (search.meet node target number, ⟨node, pending⟩ :: path)

/-- The turns that the nodes not yet discovered can take: one for each edge and one to leave. -/
def ahead (search : Search size) (graph : Digraph size) : Nat :=
  ∑ node with search.discovery.entry node = none, ((graph.next node).length + 1)

/-- What lies ahead depends on the discovered nodes only. -/
theorem ahead_congr {other : Search size} (same : other.discovery = search.discovery) :
    other.ahead graph = search.ahead graph := by
  rw [ahead, ahead, same]

/-- Entering a node takes its turns from those ahead. -/
theorem ahead_enter {node : Fin size} (new : search.discovery.entry node = none) :
    (search.enter node).ahead graph + ((graph.next node).length + 1) = search.ahead graph := by
  have fewer : (Finset.univ.filter fun other =>
      (search.enter node).discovery.entry other = none) =
      (Finset.univ.filter fun other => search.discovery.entry other = none).erase node := by
    ext other
    simp only [Finset.mem_filter, Finset.mem_univ, true_and, Finset.mem_erase, discovery_enter]
    by_cases same : other = node <;> simp [same]
  have inside : node ∈ Finset.univ.filter fun other => search.discovery.entry other = none :=
    Finset.mem_filter.mpr ⟨Finset.mem_univ node, new⟩
  rw [ahead, ahead, fewer, Finset.sum_erase_add _ _ inside]

/-- No more turns lie ahead than the graph has nodes and edges. -/
theorem ahead_le (search : Search size) (graph : Digraph size) :
    search.ahead graph ≤ size + ∑ node, (graph.next node).length := by
  calc search.ahead graph
      ≤ ∑ node, ((graph.next node).length + 1) :=
        Finset.sum_le_sum_of_subset (Finset.filter_subset _ _)
    _ = size + ∑ node, (graph.next node).length := by
        rw [Finset.sum_add_distrib, ← Finset.card_eq_sum_ones, Finset.card_univ, Fintype.card_fin,
          Nat.add_comm]

/-- The turns left for a search along a path. -/
def turnsLeft (graph : Digraph size) (state : Search size × List (Frame size)) : Nat :=
  state.1.ahead graph + work state.2

/-- A turn does not change what the search comes to. -/
theorem explore_turn (state : Search size × List (Frame size)) :
    (turn graph state).1.explore graph (turn graph state).2 = state.1.explore graph state.2 := by
  match state with
  | (search, []) => rfl
  | (search, ⟨node, []⟩ :: path) =>
    conv_rhs => rw [explore]
    rfl
  | (search, ⟨node, target :: pending⟩ :: path) =>
    conv_rhs => rw [explore]
    rw [turn]
    cases search.discovery.entry target with
    | none => rfl
    | some number => rfl

/-- A turn along a path with nodes takes one from the turns left. -/
theorem turnsLeft_turn (search : Search size) (frame : Frame size) (path : List (Frame size)) :
    turnsLeft graph (turn graph (search, frame :: path)) + 1 =
      turnsLeft graph (search, frame :: path) := by
  match frame with
  | ⟨node, []⟩ =>
    simp only [turn, turnsLeft, ahead_congr (discovery_leave search node path), work,
      List.foldr_cons, List.length_nil]
    omega
  | ⟨node, target :: pending⟩ =>
    cases seen : search.discovery.entry target with
    | none =>
      have entered : _ = search.ahead graph := ahead_enter seen
      simp only [turn, seen, turnsLeft, work, List.foldr_cons, List.length_cons]
      omega
    | some number =>
      simp only [turn, seen, turnsLeft, ahead_congr (discovery_meet search node target number),
        work, List.foldr_cons, List.length_cons]
      omega

/-- As many turns as are left, or more, take the search to the end of its path. -/
theorem iterate_turn {state : Search size × List (Frame size)} {turns : Nat}
    (enough : turnsLeft graph state ≤ turns) :
    (turn graph)^[turns] state = (state.1.explore graph state.2, []) := by
  induction turns generalizing state with
  | zero =>
    obtain ⟨search, _ | ⟨frame, path⟩⟩ := state
    · rw [explore, Function.iterate_zero_apply]
    · have positive := (turnsLeft_turn search frame path).trans_le enough
      omega
  | succ turns ih =>
    obtain ⟨search, _ | ⟨frame, path⟩⟩ := state
    · rw [explore, Function.iterate_fixed rfl]
    · have fewer := (turnsLeft_turn search frame path).trans_le enough
      rw [Function.iterate_succ_apply, ih (Nat.le_of_succ_le_succ fewer), explore_turn]

end Search

namespace Digraph

variable {size : Nat} {graph : Digraph size}

/-- Mutual reachability parts the nodes into the strongly connected components. -/
def mutualSetoid (graph : Digraph size) : Setoid (Fin size) where
  r := graph.Mutual
  iseqv := ⟨Mutual.refl, Mutual.symm, Mutual.trans⟩

/-- The number of strongly connected components. -/
noncomputable def componentCount (graph : Digraph size) : Nat :=
  Nat.card (Quotient graph.mutualSetoid)

/-- The numbers of the components are those of the components that the search closed. -/
theorem range_components (graph : Digraph size) :
    Set.range graph.components.entry = Set.Iio (Search.run graph).closed := by
  have sound := (Search.sound_run graph).1
  ext id
  constructor
  · rintro ⟨node, rfl⟩
    exact sound.below node _ (graph.component_run node)
  · intro below
    obtain ⟨node, closed⟩ := sound.used id below
    exact ⟨node, Option.some.inj ((graph.component_run node).symm.trans closed)⟩

/-- The search closes as many components as there are. -/
theorem closed_run (graph : Digraph size) :
    (Search.run graph).closed = graph.componentCount := by
  have parted : graph.mutualSetoid = Setoid.ker graph.components.entry :=
    Setoid.ext fun _ _ => components_eq_iff.symm
  calc (Search.run graph).closed
      = Nat.card (Set.Iio (Search.run graph).closed) := by
        exact (Nat.card_fin _).symm.trans (Nat.card_congr Fin.equivSubtype)
    _ = Nat.card (Set.range graph.components.entry) := by rw [range_components]
    _ = graph.componentCount := by
        rw [componentCount, parted, Nat.card_congr (Setoid.quotientKerEquivRange _)]

/-- The numbers tell the strongly connected components apart, they are those below the number of
components, and edges between components lead to smaller ones. -/
structure Numbers (graph : Digraph size) (number : Fin size → Nat) : Prop where
  /-- Two nodes have one number exactly if each is reachable from the other. -/
  joined : ∀ left right, number left = number right ↔ graph.Mutual left right
  /-- The numbers in use are those below the number of components. -/
  used : Set.range number = Set.Iio graph.componentCount
  /-- An edge out of a component leads to one with a smaller number. -/
  falls : ∀ source target, graph.Edge source target → number source ≠ number target →
    number target < number source

/-- The search for components ends on every graph, loops and parallel edges included: along any
path nothing is left to do after as many turns as there are nodes and edges, besides those that the
path has left. It closes the component of every node, and its numbers are those of the strongly
connected components, falling along the edges between them. -/
theorem components_numbered (graph : Digraph size) :
    (∀ (search : Search size) (path : List (Frame size)),
      (Search.turn graph)^[size + ∑ node, (graph.next node).length + Search.work path]
        (search, path) = (search.explore graph path, [])) ∧
      (∀ node, (Search.run graph).component.entry node = some (graph.components.entry node)) ∧
      graph.Numbers graph.components.entry := by
  refine ⟨fun search path => ?_, graph.component_run, ?_⟩
  · exact Search.iterate_turn (Nat.add_le_add_right (search.ahead_le graph) _)
  · constructor
    · exact fun left right => components_eq_iff
    · rw [range_components, closed_run]
    · intro source target edge different
      exact components_lt_of_edge edge fun both => different (components_eq_iff.mpr both)

/-- Two nodes that lead to each other by parallel edges and a third with a loop that they lead to. -/
example : (⟨#v[[1, 1], [0, 2], [2]]⟩ : Digraph 3).components = #v[1, 1, 0] := by cbv

end Digraph

end DeclOrder.Order
