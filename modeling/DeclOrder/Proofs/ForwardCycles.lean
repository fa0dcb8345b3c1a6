import DeclOrder.Proofs.ForwardStatements
import DeclOrder.Proofs.Order.Scheduling
import Mathlib

/-!
# Forward statements under a schedule

A schedule puts every block after those of other components that it refers to, so a block can only
stand behind one of its own component that refers to it. Statements are then needed for genuine
cycles only: for blocks that refer to themselves, and for blocks on a cycle of references. In a
component of several blocks the first one refers to another, which gets a statement, while nothing
in front of the first one refers to it.
-/

namespace DeclOrder.ForwardReference

open DeclOrder.Order
open DeclOrder.Order.Schedule (order reorder)

variable {blocks : List Block}

/-- Under the schedule, the names with a statement are those of blocks that refer to themselves or
come after a block with an edge to them. -/
theorem mem_names_reorder_iff (distinct : (blocks.map (·.name)).Nodup) {node : Fin blocks.length} :
    (blocks.get node).name ∈ names (reorder blocks).blocks ↔
      (blocks.get node).refersToSelf = true ∨ ∃ source, (Digraph.ofBlocks blocks).Edge source node ∧
        (order blocks).idxOf source < (order blocks).idxOf node := by
  have stands (place : Fin (reorder blocks).blocks.length) :
      (reorder blocks).blocks[place.val]? = some (blocks.get (Schedule.origin blocks place)) := by
    rw [Schedule.get_origin]
    exact List.getElem?_eq_getElem place.isLt
  rw [mem_names_iff]
  constructor
  · rintro ⟨place, block, there, same, reason⟩
    obtain ⟨inside, -⟩ := List.getElem?_eq_some_iff.mp there
    obtain rfl := Option.some.inj ((stands ⟨place, inside⟩).symm.trans there)
    have here : Schedule.origin blocks ⟨place, inside⟩ = node :=
      Fin.ext (place_unique distinct (List.getElem?_eq_getElem (Fin.isLt _))
        (List.getElem?_eq_getElem node.isLt) same)
    rw [here] at reason
    refine reason.imp_right ?_
    rintro ⟨earlier, other, before, found, refers⟩
    obtain ⟨within, -⟩ := List.getElem?_eq_some_iff.mp found
    obtain rfl := Option.some.inj ((stands ⟨earlier, within⟩).symm.trans found)
    refine ⟨Schedule.origin blocks ⟨earlier, within⟩, edge_of_refers distinct refers, ?_⟩
    rw [← here, Schedule.idxOf_origin, Schedule.idxOf_origin]
    exact before
  · intro reason
    obtain ⟨place, rfl⟩ := (Schedule.origin_bijective blocks).surjective node
    refine ⟨place.val, _, stands place, rfl, reason.imp_right ?_⟩
    rintro ⟨source, edge, before⟩
    obtain ⟨earlier, rfl⟩ := (Schedule.origin_bijective blocks).surjective source
    rw [Schedule.idxOf_origin, Schedule.idxOf_origin] at before
    exact ⟨earlier.val, _, before, stands earlier, refers_of_edge edge⟩

/-- A name with a statement under the schedule is that of a block. -/
theorem exists_node_of_mem_names {name : String} (stated : name ∈ names (reorder blocks).blocks) :
    ∃ node, (blocks.get node).name = name := by
  obtain ⟨place, block, there, rfl, -⟩ := mem_names_iff.mp stated
  have member := (Schedule.reorder_perm blocks).mem_iff.mp (List.mem_of_getElem? there)
  obtain ⟨node, rfl⟩ := List.get_of_mem member
  exact ⟨node, rfl⟩

/-- An edge to a node that comes later in the schedule stays within a component. -/
theorem mutual_of_rises {source target : Fin blocks.length}
    (edge : (Digraph.ofBlocks blocks).Edge source target)
    (rises : (order blocks).idxOf source < (order blocks).idxOf target) :
    (Digraph.ofBlocks blocks).Mutual source target := by
  by_contra apart
  exact Nat.lt_asymm rises (Digraph.idxOf_schedule_lt edge apart)

/-- A name with a statement under the schedule is that of a block that refers to itself or lies on a
cycle. -/
theorem self_or_cycle_of_mem_names (distinct : (blocks.map (·.name)).Nodup)
    {node : Fin blocks.length} (stated : (blocks.get node).name ∈ names (reorder blocks).blocks) :
    (blocks.get node).refersToSelf = true ∨
      Relation.TransGen (Digraph.ofBlocks blocks).Edge node node := by
  refine ((mem_names_reorder_iff distinct).mp stated).imp_right ?_
  rintro ⟨source, edge, rises⟩
  exact Relation.TransGen.tail' (mutual_of_rises edge rises).2 edge

/-- Two blocks stand at one place of the order only if they are one. -/
theorem idxOf_order_inj {left right : Fin blocks.length}
    (same : (order blocks).idxOf left = (order blocks).idxOf right) : left = right :=
  (List.idxOf_inj ((Schedule.order_perm blocks).mem_iff.mpr (List.mem_finRange left))).mp same

/-- A member of a component that comes first in the schedule has a statement only if it refers to
itself. -/
theorem mem_names_first_iff (distinct : (blocks.map (·.name)).Nodup) {first : Fin blocks.length}
    (least : ∀ other, (Digraph.ofBlocks blocks).Mutual first other →
      (order blocks).idxOf first ≤ (order blocks).idxOf other) :
    (blocks.get first).name ∈ names (reorder blocks).blocks ↔
      (blocks.get first).refersToSelf = true := by
  rw [mem_names_reorder_iff distinct]
  refine or_iff_left ?_
  rintro ⟨source, edge, rises⟩
  exact Nat.not_lt.mpr (least source (mutual_of_rises edge rises).symm) rises

/-- Every component has a member that comes first in the schedule. -/
theorem exists_first (node : Fin blocks.length) :
    ∃ first, (Digraph.ofBlocks blocks).Mutual node first ∧
      ∀ other, (Digraph.ofBlocks blocks).Mutual first other →
        (order blocks).idxOf first ≤ (order blocks).idxOf other := by
  obtain ⟨first, joined, least⟩ := (measure (order blocks).idxOf).wf.has_min
    {other | (Digraph.ofBlocks blocks).Mutual node other} ⟨node, Digraph.Mutual.refl node⟩
  exact ⟨first, joined, fun other shared => Nat.not_lt.mp (least other (joined.trans shared))⟩

/-- No edge of the graph of resolved blocks leads back to its source. -/
theorem ne_of_edge (resolved : Resolved blocks) {source target : Fin blocks.length}
    (edge : (Digraph.ofBlocks blocks).Edge source target) : source ≠ target := by
  rintro rfl
  exact resolved.irreflexive _ (List.get_mem blocks source) (refers_of_edge edge)

/-- Among resolved blocks, a component of several blocks has one with a statement under the
schedule. -/
theorem exists_mem_names_of_mutual (resolved : Resolved blocks) {left right : Fin blocks.length}
    (different : left ≠ right) (joined : (Digraph.ofBlocks blocks).Mutual left right) :
    ∃ node, (Digraph.ofBlocks blocks).Mutual left node ∧
      (blocks.get node).name ∈ names (reorder blocks).blocks := by
  obtain ⟨first, shared, least⟩ := exists_first left
  obtain ⟨other, apart, back⟩ : ∃ other, first ≠ other ∧
      (Digraph.ofBlocks blocks).Mutual first other := by
    by_cases same : first = left
    · exact ⟨right, same ▸ different, same ▸ joined⟩
    · exact ⟨left, same, shared.symm⟩
  -- The way from the first member to another one starts with an edge to a later member.
  obtain same | ⟨next, edge, rest⟩ := back.1.cases_head
  · exact absurd same apart
  have along : (Digraph.ofBlocks blocks).Mutual first next :=
    ⟨Digraph.Reaches.edge edge, Digraph.Reaches.trans rest back.2⟩
  have rises : (order blocks).idxOf first < (order blocks).idxOf next :=
    Nat.lt_of_le_of_ne (least next along) fun same =>
      ne_of_edge resolved edge (idxOf_order_inj same)
  exact ⟨next, shared.trans along,
    (mem_names_reorder_iff resolved.distinct).mpr (.inr ⟨first, edge, rises⟩)⟩

/-- Among resolved blocks, no name has a statement under the schedule exactly if no block refers to
itself and there are no cycles. -/
theorem names_reorder_eq_nil_iff (resolved : Resolved blocks) :
    (names (reorder blocks).blocks).names = [] ↔
      (∀ block ∈ blocks, block.refersToSelf = false) ∧ (Digraph.ofBlocks blocks).Acyclic := by
  rw [List.eq_nil_iff_forall_not_mem]
  constructor
  · intro unstated
    refine ⟨fun block member => ?_, fun node cycle => ?_⟩
    · obtain ⟨node, rfl⟩ := List.get_of_mem member
      refine Bool.eq_false_iff.mpr fun self => unstated (blocks.get node).name ?_
      exact (mem_names_reorder_iff resolved.distinct).mpr (.inl self)
    · obtain ⟨next, edge, back⟩ := Relation.TransGen.head'_iff.mp cycle
      obtain ⟨stated, -, member⟩ := exists_mem_names_of_mutual resolved
        (ne_of_edge resolved edge) ⟨Digraph.Reaches.edge edge, back⟩
      exact unstated _ member
  · rintro ⟨unselfish, acyclic⟩ name stated
    obtain ⟨node, rfl⟩ := exists_node_of_mem_names stated
    rcases self_or_cycle_of_mem_names resolved.distinct stated with self | cycle
    · rw [unselfish _ (List.get_mem blocks node)] at self
      exact Bool.false_ne_true self
    · exact acyclic node cycle

/-- Under the schedule of blocks with distinct names and the references read off their bodies, only
blocks that refer to themselves or lie on a cycle have a statement. Every component of several
blocks has one with a statement, and that which comes first in the order has one only if it refers
to itself. Nothing is stated exactly if no block refers to itself and there are no cycles. -/
theorem names_reorder_genuine (source blocks : List Block)
    (annotated : blocks = Resolution.annotate source)
    (distinct : (blocks.map (·.name)).Nodup) :
    (∀ name ∈ names (reorder blocks).blocks, ∃ node, (blocks.get node).name = name ∧
      ((blocks.get node).refersToSelf = true ∨
        Relation.TransGen (Digraph.ofBlocks blocks).Edge node node)) ∧
    (∀ left right, left ≠ right → (Digraph.ofBlocks blocks).Mutual left right →
      ∃ node, (Digraph.ofBlocks blocks).Mutual left node ∧
        (blocks.get node).name ∈ names (reorder blocks).blocks) ∧
    (∀ first, (∀ other, (Digraph.ofBlocks blocks).Mutual first other →
        (order blocks).idxOf first ≤ (order blocks).idxOf other) →
      ((blocks.get first).name ∈ names (reorder blocks).blocks ↔
        (blocks.get first).refersToSelf = true)) ∧
    ((names (reorder blocks).blocks).names = [] ↔
      (∀ block ∈ blocks, block.refersToSelf = false) ∧ (Digraph.ofBlocks blocks).Acyclic) := by
  have resolved : Resolved blocks := by
    subst annotated
    refine resolved_resolve ?_
    simpa [Resolution.annotate, Resolution.resolve, Function.comp_def] using distinct
  refine ⟨fun name stated => ?_,
    fun left right different joined => exists_mem_names_of_mutual resolved different joined,
    fun first least => mem_names_first_iff distinct least, names_reorder_eq_nil_iff resolved⟩
  obtain ⟨node, rfl⟩ := exists_node_of_mem_names stated
  exact ⟨node, rfl, self_or_cycle_of_mem_names distinct stated⟩

/-- A block that refers to the first of two blocks in a cycle, with the references read off the
bodies. -/
def braided : List Block :=
  [{ name := "Deal", lines := ["class Deal(Base):", "    part: Part"]
     mentions := NameSet.ofList ["Part"], references := NameSet.ofList ["Part"] },
   { name := "Part", lines := ["class Part(Base):", "    unit: Unit"]
     mentions := NameSet.ofList ["Unit"], references := NameSet.ofList ["Unit"] },
   { name := "Unit", lines := ["class Unit(Base):", "    part: Part"]
     mentions := NameSet.ofList ["Part"], references := NameSet.ofList ["Part"] }]

/-- The cycle of the braided blocks has a statement, and its first block, which comes first in the
order, has none. -/
theorem names_reorder_genuine_braided :
    braided = Resolution.annotate (braided.map fun ⟨name, lines, _, _, _⟩ => { name, lines }) ∧
      (braided.map (·.name)).Nodup ∧
      (∃ node, (Digraph.ofBlocks braided).Mutual ⟨1, by decide⟩ node ∧
        (braided.get node).name ∈ names (reorder braided).blocks) ∧
      "Part" ∉ names (reorder braided).blocks := by
  have annotated :
      braided =
        Resolution.annotate (braided.map fun ⟨name, lines, _, _, _⟩ => { name, lines }) := by
    decide +kernel
  have distinct : (braided.map (·.name)).Nodup := by decide
  have ordered : order braided = [⟨1, by decide⟩, ⟨2, by decide⟩, ⟨0, by decide⟩] := by cbv
  have joined : (Digraph.ofBlocks braided).Mutual ⟨1, by decide⟩ ⟨2, by decide⟩ :=
    ⟨Digraph.Reaches.edge (by decide), Digraph.Reaches.edge (by decide)⟩
  obtain ⟨-, several, first, -⟩ := names_reorder_genuine _ braided annotated distinct
  refine ⟨annotated, distinct, several _ _ (by decide) joined, fun stated => ?_⟩
  have least (other : Fin braided.length)
      (_ : (Digraph.ofBlocks braided).Mutual ⟨1, by decide⟩ other) :
      (order braided).idxOf ⟨1, by decide⟩ ≤ (order braided).idxOf other := by
    rw [ordered]
    exact Nat.zero_le _
  exact absurd ((first ⟨1, by decide⟩ least).mp stated) (by decide)

end DeclOrder.ForwardReference
