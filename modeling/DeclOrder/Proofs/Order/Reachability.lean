import DeclOrder.Order.Digraph
import Mathlib.Data.Fintype.Card
import Mathlib.Data.List.Cycle
import Mathlib.Logic.Relation

/-!
# Reachability in a digraph

Two nodes belong to one strongly connected component when each is reachable from the other. A
digraph is acyclic when no node is reachable from itself along at least one edge, and this is so
exactly when the nodes can be ranked by numbers that fall along every edge. In particular the nodes
themselves cannot fall along every edge of a cycle.
-/

namespace DeclOrder.Order.Digraph

variable {size : Nat} {graph : Digraph size}

/-- A path of edges, possibly empty, leads from the first node to the second. -/
def Reaches (graph : Digraph size) : Fin size → Fin size → Prop :=
  Relation.ReflTransGen graph.Edge

/-- Each of the two nodes is reachable from the other. -/
def Mutual (graph : Digraph size) (left right : Fin size) : Prop :=
  graph.Reaches left right ∧ graph.Reaches right left

/-- No path of at least one edge leads from a node back to itself. -/
def Acyclic (graph : Digraph size) : Prop :=
  ∀ node, ¬ Relation.TransGen graph.Edge node node

/-- Every node reaches itself. -/
theorem Reaches.refl (node : Fin size) : graph.Reaches node node := Relation.ReflTransGen.refl

/-- An edge is a path. -/
theorem Reaches.edge {source target : Fin size} (edge : graph.Edge source target) :
    graph.Reaches source target := Relation.ReflTransGen.single edge

/-- Two paths in a row are a path. -/
theorem Reaches.trans {first second third : Fin size} (left : graph.Reaches first second)
    (right : graph.Reaches second third) : graph.Reaches first third :=
  Relation.ReflTransGen.trans left right

/-- Every node is mutually reachable with itself. -/
theorem Mutual.refl (node : Fin size) : graph.Mutual node node :=
  ⟨Reaches.refl node, Reaches.refl node⟩

/-- Mutual reachability goes both ways. -/
theorem Mutual.symm {left right : Fin size} (both : graph.Mutual left right) :
    graph.Mutual right left := ⟨both.2, both.1⟩

/-- Mutual reachability passes from node to node. -/
theorem Mutual.trans {first second third : Fin size} (left : graph.Mutual first second)
    (right : graph.Mutual second third) : graph.Mutual first third :=
  ⟨left.1.trans right.1, right.2.trans left.2⟩

/-- No edge of an acyclic digraph stays within a component. -/
theorem Acyclic.not_mutual (acyclic : graph.Acyclic) {source target : Fin size}
    (edge : graph.Edge source target) : ¬ graph.Mutual source target := fun both =>
  acyclic source (Relation.TransGen.head' edge both.2)

/-- Paths correspond under a renaming of the nodes that carries edges to edges both ways. -/
theorem reaches_iff_of_bijective {others : Nat} {other : Digraph others}
    {origin : Fin others → Fin size} (bijective : Function.Bijective origin)
    (edge_iff : ∀ source target,
      other.Edge source target ↔ graph.Edge (origin source) (origin target))
    {source target : Fin others} :
    other.Reaches source target ↔ graph.Reaches (origin source) (origin target) := by
  constructor
  · intro path
    exact Relation.ReflTransGen.lift origin (fun _ _ edge => (edge_iff _ _).mp edge) _ _ path
  · intro path
    generalize origin_eq : origin target = last at path
    induction path generalizing target with
    | refl => exact bijective.injective origin_eq ▸ Reaches.refl _
    | @tail before _ _ edge ih =>
      obtain ⟨previous, rfl⟩ := bijective.surjective before
      have step : other.Edge previous target := (edge_iff _ _).mpr (origin_eq ▸ edge)
      exact (ih rfl).trans (Reaches.edge step)

/-- Mutual reachability corresponds under a renaming of the nodes. -/
theorem mutual_iff_of_bijective {others : Nat} {other : Digraph others}
    {origin : Fin others → Fin size} (bijective : Function.Bijective origin)
    (edge_iff : ∀ source target,
      other.Edge source target ↔ graph.Edge (origin source) (origin target))
    {left right : Fin others} :
    other.Mutual left right ↔ graph.Mutual (origin left) (origin right) :=
  and_congr (reaches_iff_of_bijective bijective edge_iff)
    (reaches_iff_of_bijective bijective edge_iff)

/-- Numbers that fall along every edge fall along every path. -/
theorem rank_lt_of_transGen (rank : Fin size → Nat)
    (falls : ∀ source target, graph.Edge source target → rank target < rank source)
    {source target : Fin size} (path : Relation.TransGen graph.Edge source target) :
    rank target < rank source := by
  induction path with
  | single edge => exact falls _ _ edge
  | tail _ edge ih => exact Nat.lt_trans (falls _ _ edge) ih

/-- A digraph with numbers that fall along every edge is acyclic. -/
theorem acyclic_of_rank (rank : Fin size → Nat)
    (falls : ∀ source target, graph.Edge source target → rank target < rank source) :
    graph.Acyclic := fun _ cycle => Nat.lt_irrefl _ (rank_lt_of_transGen rank falls cycle)

/-- The nodes of an acyclic digraph can be ranked: the number of nodes reachable along at least
one edge falls along every edge. -/
theorem Acyclic.exists_rank (acyclic : graph.Acyclic) :
    ∃ rank : Fin size → Nat, (∀ node, rank node < size) ∧
      ∀ source target, graph.Edge source target → rank target < rank source := by
  classical
  let below (node : Fin size) : Finset (Fin size) :=
    Finset.univ.filter fun other => Relation.TransGen graph.Edge node other
  refine ⟨fun node => (below node).card, fun node => ?_, fun source target edge => ?_⟩
  · have strict : below node ⊂ Finset.univ := by
      refine Finset.ssubset_univ_iff.mpr fun whole => acyclic node ?_
      have member : node ∈ below node := whole ▸ Finset.mem_univ node
      exact (Finset.mem_filter.mp member).2
    simpa using Finset.card_lt_card strict
  · refine Finset.card_lt_card (Finset.ssubset_iff_of_subset ?_ |>.mpr ⟨target, ?_, ?_⟩)
    · intro other member
      have path := (Finset.mem_filter.mp member).2
      exact Finset.mem_filter.mpr ⟨Finset.mem_univ _, Relation.TransGen.head edge path⟩
    · exact Finset.mem_filter.mpr ⟨Finset.mem_univ _, Relation.TransGen.single edge⟩
    · exact fun member => acyclic target (Finset.mem_filter.mp member).2

/-- Some edge of every cycle does not lead to a smaller node. -/
theorem exists_rise_of_chain {cycle : Cycle (Fin size)} (nonempty : cycle ≠ Cycle.nil)
    (chain : cycle.Chain graph.Edge) :
    ∃ source target, target ∈ cycle ∧ graph.Edge source target ∧ source ≤ target := by
  by_contra none_rises
  push Not at none_rises
  refine nonempty ?_
  induction cycle with
  | nil => rfl
  | cons first rest _ =>
    rw [Cycle.chain_coe_cons] at chain
    have falls : List.IsChain (· > ·) (first :: (rest ++ [first])) :=
      chain.imp_of_mem_tail_imp fun source target _ member edge =>
        none_rises source target (by simpa [or_comm] using member) edge
    exact Cycle.Chain.eq_nil_of_irrefl (Cycle.chain_coe_cons .. |>.mpr falls)

end DeclOrder.Order.Digraph
