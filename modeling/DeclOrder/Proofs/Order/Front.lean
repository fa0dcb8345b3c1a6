import DeclOrder.Order.Strategy
import DeclOrder.Proofs.Order.Scheduling
import DeclOrder.Proofs.Order.Unsettled

/-!
# The front of an order

Blocks at the front that refer only to blocks before them stay where they are, whatever follows
them and however often it refers to itself. Local repair takes blocks from behind the settled front
to its end. A schedule has each node of the front for a component of its own, and every one is ready
when those before it are placed.
-/

namespace DeclOrder.Order

namespace Repair

variable {blocks next : List Block}

/-- A repair keeps a front that refers to nothing behind itself. -/
theorem take_step? (resolved : Resolved blocks) {count : Nat}
    (front : DependenciesFirst (blocks.take count)) (step : step? blocks = some next) :
    next.take count = blocks.take count := by
  cases rest : unsettled [] blocks with
  | nil =>
    have finished := (step?_eq_none_iff resolved).mpr (dependenciesFirst_iff.mpr rest)
    exact absurd (finished.symm.trans step) (by simp)
  | cons first later =>
    obtain ⟨done, between, moved, after, rfl, whole, -, -, repaired⟩ :=
      step?_of_unsettled resolved rest
    obtain rfl := Option.some.inj (step.symm.trans repaired)
    have behind := length_unsettled_le ((blocks.take count).map (·.name)).reverse
      (blocks.drop count)
    have same := unsettled_append (dependenciesFirst_iff.mp front) (blocks.drop count)
    rw [List.take_append_drop, rest, List.append_nil] at same
    rw [← same, whole] at behind
    have within : count ≤ done.length := by
      simp only [List.length_cons, List.length_append, List.length_drop] at behind
      omega
    rw [whole, List.take_append_of_le_length within, List.take_append_of_le_length within]

/-- Any number of repairs keep a front that refers to nothing behind itself. -/
theorem take_repairFrom (moved cap : Nat) (resolved : Resolved blocks) {count : Nat}
    (front : DependenciesFirst (blocks.take count)) :
    (repairFrom moved cap blocks).blocks.take count = blocks.take count := by
  induction cap generalizing moved blocks with
  | zero => rfl
  | succ cap ih =>
    cases step : step? blocks with
    | none => simp only [repairFrom, step]
    | some next =>
      have kept := take_step? resolved front step
      simp only [repairFrom, step]
      rw [ih (moved + 1) (resolved.perm (step?_perm step)) (kept ▸ front), kept]

/-- Nothing is relocated among settled blocks. -/
theorem relocations_of_settled (nothing : step? blocks = none) (cap : Nat) :
    (reorder cap blocks).relocations = 0 := by
  cases cap with
  | zero => rfl
  | succ cap => simp only [reorder, repairFrom, nothing]

end Repair

namespace Digraph

variable {size : Nat} {graph : Digraph size} {components : Table Nat size}
  {placed : Table Bool size}

/-- The edges out of the first nodes lead to smaller ones. -/
def LeadsBack (graph : Digraph size) (count : Nat) : Prop :=
  ∀ source target, source.val < count → graph.Edge source target → target < source

/-- Groups that are ready one after the other are released before those that wait behind them. -/
theorem release_append {front : List (List (Fin size))} (rest : List (List (Fin size)))
    (ready : ∀ before group after, front = before ++ group :: after →
      graph.ready components (before.foldl place placed) group = true) :
    graph.release components placed (front ++ rest) =
      front ++ graph.release components (front.foldl place placed) rest := by
  induction front generalizing placed with
  | nil => rfl
  | cons group front ih =>
    have first : graph.ready components placed group = true := ready [] group front rfl
    rw [List.cons_append, release_cons _ first, ih, List.cons_append, List.foldl_cons]
    intro before other after split
    exact ready (group :: before) other after (congrArg (group :: ·) split)

variable {count : Nat}

/-- The first nodes reach only smaller ones. -/
theorem LeadsBack.le_of_reaches (back : graph.LeadsBack count) {node other : Fin size}
    (inside : node.val < count) (path : graph.Reaches node other) : other ≤ node := by
  induction path with
  | refl => exact Fin.le_refl node
  | tail _ edge ih =>
    have smaller := back _ _ (Nat.lt_of_le_of_lt ih inside) edge
    exact Fin.le_of_lt (Fin.lt_of_lt_of_le smaller ih)

/-- Each of the first nodes is a component of its own. -/
theorem LeadsBack.componentOf_eq (back : graph.LeadsBack count) {node : Fin size}
    (inside : node.val < count) : componentOf graph.components node = [node] := by
  refine List.perm_singleton.mp ((List.perm_ext_iff_of_nodup ?_ (List.nodup_singleton node)).mpr
    fun other => ?_)
  · exact (pairwise_componentOf graph.components node).imp Fin.ne_of_lt
  · rw [mem_componentOf, components_eq_iff, List.mem_singleton]
    constructor
    · rintro ⟨back_path, path⟩
      have below := back.le_of_reaches inside path
      exact Fin.le_antisymm below
        (back.le_of_reaches (Nat.lt_of_le_of_lt below inside) back_path)
    · rintro rfl
      exact Mutual.refl other

/-- The first nodes are those with small numbers. -/
theorem mem_take_finRange {node : Fin size} :
    node ∈ (List.finRange size).take count ↔ node.val < count := by
  rw [List.mem_take_iff_getElem]
  simp only [List.getElem_finRange, List.length_finRange]
  constructor
  · rintro ⟨place, inside, rfl⟩
    exact Nat.lt_of_lt_of_le inside (Nat.min_le_left _ _)
  · intro inside
    exact ⟨node.val, Nat.lt_min.mpr ⟨inside, node.isLt⟩, rfl⟩

/-- The first nodes come first among the groups, one by one. -/
theorem LeadsBack.exists_groups_eq (back : graph.LeadsBack count) :
    ∃ rest, groups graph.components = ((List.finRange size).take count).map ([·]) ++ rest := by
  let grouped (node : Fin size) : Option (List (Fin size)) :=
    if (componentOf graph.components node).head? = some node
      then some (componentOf graph.components node) else none
  have shape : groups graph.components = (List.finRange size).filterMap grouped := by
    rw [groups, List.filterMap_map]
    rfl
  have single : ∀ node ∈ (List.finRange size).take count, grouped node = some [node] := by
    intro node member
    simp only [grouped, back.componentOf_eq (mem_take_finRange.mp member), List.head?_cons, if_pos]
  have front : ((List.finRange size).take count).filterMap grouped =
      ((List.finRange size).take count).map ([·]) :=
    (List.filterMap_congr single).trans (congrFun List.filterMap_eq_map _)
  refine ⟨((List.finRange size).drop count).filterMap grouped, ?_⟩
  rw [shape, ← front, ← List.filterMap_append, List.take_append_drop]

/-- Groups of one node each hold these nodes. -/
theorem flatten_map_singleton (nodes : List (Fin size)) : (nodes.map ([·])).flatten = nodes := by
  rw [← List.flatMap_def, List.flatMap_singleton']

/-- Each of the first nodes is ready when those before it are placed. -/
theorem LeadsBack.ready_of_split (back : graph.LeadsBack count) {before after : List (Fin size)}
    {node : Fin size} (split : (List.finRange size).take count = before ++ node :: after) :
    graph.ready components ((before.map ([·])).foldl place placed) [node] = true := by
  refine ready_iff.mpr fun member is_member target edge => .inr ?_
  obtain rfl := List.mem_singleton.mp is_member
  have ascending := (List.pairwise_lt_finRange size).sublist (List.take_sublist count _)
  have inside : member.val < count :=
    mem_take_finRange.mp (split ▸ List.mem_append_right _ List.mem_cons_self)
  have smaller := back member target inside edge
  have listed : target ∈ before ++ member :: after :=
    split ▸ mem_take_finRange.mpr (Nat.lt_trans smaller inside)
  rw [split, List.pairwise_append, List.pairwise_cons] at ascending
  rw [entry_foldl_place, flatten_map_singleton]
  rcases List.mem_append.mp listed with placed | behind
  · simp [placed]
  · rcases List.mem_cons.mp behind with rfl | behind
    · exact absurd smaller (Fin.lt_irrefl _)
    · exact absurd (smaller.trans (ascending.2.1.1 target behind)) (Fin.lt_irrefl _)

/-- The first nodes come first in a schedule, in their order. -/
theorem LeadsBack.take_prefix_schedule (back : graph.LeadsBack count) :
    (List.finRange size).take count <+: graph.schedule.flatten := by
  obtain ⟨rest, whole⟩ := back.exists_groups_eq
  rw [schedule_eq_release, whole, release_append rest, List.flatten_append, flatten_map_singleton]
  · exact List.prefix_append _ _
  · intro before group after split
    obtain ⟨first, later, nodes, rfl, more⟩ := List.map_eq_append_iff.mp split
    obtain ⟨node, last, rfl, rfl, rfl⟩ := List.map_eq_cons_iff.mp more
    exact back.ready_of_split nodes

end Digraph

namespace Schedule

variable {blocks : List Block} {count : Nat}

/-- The edges of a front that refers to nothing behind itself lead back. -/
theorem leadsBack_ofBlocks (distinct : (blocks.map (·.name)).Nodup)
    (front : DependenciesFirst (blocks.take count)) :
    (Digraph.ofBlocks blocks).LeadsBack count := by
  intro source target inside edge
  have stands : (blocks.take count)[source.val]? = some (blocks.get source) := by
    rw [List.getElem?_take_of_lt inside]
    exact List.getElem?_eq_getElem source.isLt
  obtain ⟨earlier, other, before, found, same⟩ := front _ _ stands _ (refers_of_edge edge)
  rw [List.getElem?_take_of_lt (Nat.lt_trans before inside)] at found
  have places := place_unique distinct found (List.getElem?_eq_getElem target.isLt) same
  exact Fin.lt_def.mpr (places ▸ before)

/-- A front that refers to nothing behind itself comes first in the schedule, in its order. -/
theorem take_prefix_order (distinct : (blocks.map (·.name)).Nodup)
    (front : DependenciesFirst (blocks.take count)) :
    (List.finRange blocks.length).take count <+: order blocks :=
  (leadsBack_ofBlocks distinct front).take_prefix_schedule

/-- Ordering by the schedule keeps a front that refers to nothing behind itself. -/
theorem take_prefix_reorder (distinct : (blocks.map (·.name)).Nodup)
    (front : DependenciesFirst (blocks.take count)) :
    blocks.take count <+: (reorder blocks).blocks := by
  have moved := (take_prefix_order distinct front).map blocks.get
  rwa [List.map_take, List.map_get_finRange] at moved

/-- The places of blocks with dependencies first are scheduled as they are. -/
theorem order_of_dependenciesFirst (distinct : (blocks.map (·.name)).Nodup)
    (first : DependenciesFirst blocks) : order blocks = List.finRange blocks.length := by
  have whole : DependenciesFirst (blocks.take blocks.length) := by rwa [List.take_length]
  have front := take_prefix_order distinct whole
  rw [List.take_of_length_le (List.length_finRange.le)] at front
  exact (front.eq_of_length (order_perm blocks).length_eq.symm).symm

/-- Nothing is relocated among blocks with dependencies first. -/
theorem relocations_of_dependenciesFirst (distinct : (blocks.map (·.name)).Nodup)
    (first : DependenciesFirst blocks) : (reorder blocks).relocations = 0 := by
  refine List.countP_eq_zero.mpr ?_
  rintro ⟨node, target⟩ member
  rw [order_of_dependenciesFirst distinct first] at member
  obtain ⟨inside, here⟩ := List.getElem?_eq_some_iff.mp (List.mk_mem_zipIdx_iff_getElem?.mp member)
  rw [List.getElem_finRange] at here
  simp [← here]

end Schedule

/-- Both strategies keep a front that refers to nothing behind itself, whatever the cap on passes.
In particular an order with dependencies first comes back as it is, with nothing relocated, and
counts as converged. -/
theorem Strategy.reorder_keeps_front {blocks : List Block} (resolved : Resolved blocks)
    (strategy : Strategy) (cap : Nat) :
    (∀ count, DependenciesFirst (blocks.take count) →
      blocks.take count <+: (strategy.reorder cap blocks).blocks) ∧
    (DependenciesFirst blocks →
      (strategy.reorder cap blocks).blocks = blocks ∧
        (strategy.reorder cap blocks).relocations = 0 ∧
        (strategy.reorder cap blocks).converged = true) := by
  cases strategy with
  | components =>
    refine ⟨fun count => Schedule.take_prefix_reorder resolved.distinct, fun first => ⟨?_, ?_, rfl⟩⟩
    · change (Schedule.order blocks).map blocks.get = blocks
      rw [Schedule.order_of_dependenciesFirst resolved.distinct first, List.map_get_finRange]
    · exact Schedule.relocations_of_dependenciesFirst resolved.distinct first
  | window =>
    refine ⟨fun count front => ?_, fun first => ?_⟩
    · have kept := Repair.take_repairFrom 0 cap resolved front
      exact kept ▸ List.take_prefix count _
    · have settled := (Repair.step?_eq_none_iff resolved).mpr first
      have same := Repair.reorder_of_settled settled cap
      have converged : (Repair.reorder cap blocks).converged = true :=
        (Repair.repairFrom_converged_iff 0 cap blocks).mpr (by rwa [← Repair.reorder, same])
      exact ⟨same, Repair.relocations_of_settled settled cap, converged⟩

/-- A front of two blocks, and behind it a cycle that refers to the front and a block that it needs
last. -/
def tailed : List Block := Resolution.resolve
  [{ name := "Link", lines := ["class Link(Base):"] },
   { name := "Role", lines := ["class Role(Base):"], mentions := NameSet.ofList ["Link"] },
   { name := "Offer", lines := ["class Offer(Base):"], mentions := NameSet.ofList ["Role", "Terms"] },
   { name := "Terms", lines := ["class Terms(Base):"], mentions := NameSet.ofList ["Offer", "Unit"] },
   { name := "Unit", lines := ["class Unit(Base):"] }]

/-- Both strategies keep the first two of the tailed blocks, and local repair moves others. -/
theorem Strategy.reorder_keeps_front_tailed :
    Resolved tailed ∧ DependenciesFirst (tailed.take 2) ∧
      (∀ strategy cap, tailed.take 2 <+: (Strategy.reorder strategy cap tailed).blocks) ∧
      (Repair.reorder 1 tailed).blocks.map (·.name) = ["Link", "Role", "Terms", "Offer", "Unit"] := by
  have resolved : Resolved tailed := resolved_resolve (by decide)
  have front : DependenciesFirst (tailed.take 2) :=
    Repair.dependenciesFirst_iff.mpr (by decide)
  exact ⟨resolved, front,
    fun strategy cap => (Strategy.reorder_keeps_front resolved strategy cap).1 2 front,
    by decide +kernel⟩

end DeclOrder.Order
