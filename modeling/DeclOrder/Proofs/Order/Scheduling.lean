import DeclOrder.Proofs.Order.Agenda
import DeclOrder.Proofs.Order.Reference

/-!
# Schedules

A schedule releases the components of a graph, so it is an order of all nodes in which the strongly
connected components stay together and come after all that they have an edge to.

Nodes that are in such an order already are scheduled as they are.
-/

namespace DeclOrder.Order

namespace Digraph

variable {size : Nat} {graph : Digraph size} {components : Table Nat size}
  {placed : Table Bool size}

/-- A schedule has every group once. -/
theorem schedule_perm (graph : Digraph size) : graph.schedule.Perm (groups graph.components) := by
  rw [schedule_eq_release]
  exact release_perm (awaited_groups graph.components)

/-- A scheduled group is ready once those scheduled before it are placed. -/
theorem ready_of_schedule {before after : List (List (Fin size))} {group : List (Fin size)}
    (split : graph.schedule = before ++ group :: after) :
    graph.ready graph.components (before.foldl place (.all size false)) group = true := by
  rw [schedule_eq_release] at split
  exact ready_of_release split

/-- A schedule has every node once. -/
theorem flatten_schedule_perm (graph : Digraph size) :
    graph.schedule.flatten.Perm (List.finRange size) :=
  graph.schedule_perm.flatten.trans (flatten_groups_perm graph.components)

/-- A schedule has no node twice. -/
theorem flatten_schedule_nodup (graph : Digraph size) : graph.schedule.flatten.Nodup :=
  graph.flatten_schedule_perm.nodup_iff.mpr (List.nodup_finRange size)

/-- A schedule falls into the groups before the component of a node, that component and the groups
after it. -/
theorem exists_schedule_split (graph : Digraph size) (node : Fin size) :
    ∃ before after, graph.schedule = before ++ componentOf graph.components node :: after := by
  have member : componentOf graph.components node ∈ graph.schedule :=
    graph.schedule_perm.mem_iff.mpr (mem_groups.mpr ⟨node, rfl⟩)
  exact List.append_of_mem member

/-- The nodes of a component stay together in a schedule. -/
theorem componentOf_contiguous (graph : Digraph size) (node : Fin size) :
    componentOf graph.components node <:+: graph.schedule.flatten := by
  obtain ⟨before, after, split⟩ := graph.exists_schedule_split node
  exact ⟨before.flatten, after.flatten, by rw [split]; simp⟩

/-- A schedule puts the target of an edge between components before its source. -/
theorem idxOf_schedule_lt {source target : Fin size} (edge : graph.Edge source target)
    (apart : ¬ graph.Mutual source target) :
    graph.schedule.flatten.idxOf target < graph.schedule.flatten.idxOf source := by
  obtain ⟨before, after, split⟩ := graph.exists_schedule_split source
  have ready := ready_iff.mp (ready_of_schedule split) source (self_mem_componentOf _ source)
  have placed := (ready target edge).resolve_left fun same => apart (components_eq_iff.mp same.symm)
  have earlier : target ∈ before.flatten := by
    simpa [entry_foldl_place] using placed
  have nodup := graph.flatten_schedule_nodup
  rw [split, List.flatten_append] at nodup ⊢
  have missing : source ∉ before.flatten := fun member =>
    List.disjoint_of_nodup_append nodup member (by simp [self_mem_componentOf])
  rw [List.idxOf_append_of_mem earlier, List.idxOf_append_of_notMem missing]
  exact (List.idxOf_lt_length_iff.mpr earlier).trans_le (Nat.le_add_right _ _)

/-- What holds of nodes that are in the order of a schedule. -/
structure Arranged (graph : Digraph size) : Prop where
  /-- What stands between two nodes of a component belongs to it. -/
  contiguous : ∀ first middle last : Fin size, first < middle → middle < last →
    graph.Mutual first last → graph.Mutual first middle
  /-- Edges between components lead back. -/
  back : ∀ source target, graph.Edge source target → ¬ graph.Mutual source target → target < source

/-- The groups of arranged nodes are in ascending order as wholes. -/
theorem Arranged.pairwise_flatten_groups (arranged : graph.Arranged) :
    (groups graph.components).flatten.Pairwise (· < ·) := by
  refine List.pairwise_flatten.mpr ⟨fun group member => ?_, ?_⟩
  · obtain ⟨node, rfl⟩ := mem_groups.mp member
    exact pairwise_componentOf graph.components node
  · apply (pairwise_groups graph.components).imp_of_mem
    intro left right leftMember rightMember
    rintro ⟨first, second, left_head, right_head, less⟩ node inLeft other inRight
    obtain ⟨leftNode, rfl⟩ := mem_groups.mp leftMember
    obtain ⟨rightNode, rfl⟩ := mem_groups.mp rightMember
    have first_mem := mem_componentOf.mp (List.mem_of_mem_head? left_head)
    have node_mem := mem_componentOf.mp inLeft
    have other_mem := mem_componentOf.mp inRight
    have together : graph.Mutual first node := components_eq_iff.mp (first_mem.trans node_mem.symm)
    have least : second ≤ other := by
      obtain ⟨rest, whole⟩ := List.head?_eq_some_iff.mp right_head
      have ascending := pairwise_componentOf graph.components rightNode
      rw [whole] at ascending inRight
      rcases List.mem_cons.mp inRight with same | later
      · exact Fin.le_of_eq same.symm
      · exact Fin.le_of_lt ((List.pairwise_cons.mp ascending).1 other later)
    -- Were the other node in front, it would stand within the component of the first.
    refine Fin.not_le.mp fun le => ?_
    have same : graph.Mutual first other := by
      rcases Fin.lt_or_eq_of_le le with before | same
      · exact arranged.contiguous first other node (less.trans_le least) before together
      · exact same ▸ together
    have right_head_mem := mem_componentOf.mp (List.mem_of_mem_head? right_head)
    have shared : graph.components.entry leftNode = graph.components.entry rightNode :=
      first_mem.symm.trans ((components_eq_iff.mpr same).trans other_mem)
    rw [componentOf_congr shared, right_head] at left_head
    exact absurd (Option.some.inj left_head) (Fin.ne_of_gt less)

/-- The first group that waits is released first if it is ready. -/
theorem release_cons {group : List (Fin size)} (waiting : List (List (Fin size)))
    (ready : graph.ready components placed group = true) :
    graph.release components placed (group :: waiting) =
      group :: graph.release components (place placed group) waiting := by
  rw [release_of_find?_some (List.find?_cons_of_pos ready), List.erase_cons_head]

/-- Groups that wait in ascending order, with edges between components leading back, are released
as they wait. -/
theorem Awaited.release_eq_self {waiting : List (List (Fin size))}
    (awaited : Awaited graph.components placed waiting)
    (ascending : waiting.flatten.Pairwise (· < ·))
    (back : ∀ source target, graph.Edge source target → ¬ graph.Mutual source target →
      target < source) :
    graph.release graph.components placed waiting = waiting := by
  induction waiting generalizing placed with
  | nil => exact release_of_find?_none rfl
  | cons group waiting ih =>
    rw [List.flatten_cons, List.pairwise_append] at ascending
    have ready : graph.ready graph.components placed group = true := by
      apply ready_iff.mpr
      intro node member target edge
      by_cases same : graph.components.entry target = graph.components.entry node
      · exact .inl same
      · refine .inr ((awaited.waits target).resolve_right fun waits => ?_)
        rcases List.mem_cons.mp waits with first | later
        · rw [← first] at member
          exact same (mem_componentOf.mp member).symm
        · have inLater : target ∈ waiting.flatten :=
            List.mem_flatten.mpr ⟨_, later, self_mem_componentOf _ target⟩
          have behind := back node target edge fun both => same (components_eq_iff.mpr both.symm)
          exact Fin.lt_irrefl _ (behind.trans (ascending.2.2 node member target inLater))
    have placed_rest := awaited.place group
    rw [List.erase_cons_head] at placed_rest
    rw [release_cons waiting ready, ih placed_rest ascending.2.1]

/-- Arranged nodes are scheduled as they are. -/
theorem Arranged.flatten_schedule (arranged : graph.Arranged) :
    graph.schedule.flatten = List.finRange size := by
  have ascending := arranged.pairwise_flatten_groups
  have same := (awaited_groups graph.components).release_eq_self ascending arranged.back
  rw [schedule_eq_release, same]
  exact (flatten_groups_perm graph.components).eq_of_pairwise
    (fun _ _ _ _ less greater => absurd greater (Fin.not_lt.mpr (Fin.le_of_lt less)))
    ascending (List.pairwise_lt_finRange size)

end Digraph

namespace Schedule

/-- The order of a schedule has every place once. -/
theorem order_perm (blocks : List Block) : (order blocks).Perm (List.finRange blocks.length) :=
  (Digraph.ofBlocks blocks).flatten_schedule_perm

/-- The order of a schedule has no place twice. -/
theorem order_nodup (blocks : List Block) : (order blocks).Nodup :=
  (Digraph.ofBlocks blocks).flatten_schedule_nodup

/-- Ordering by the schedule keeps the blocks. -/
theorem reorder_perm (blocks : List Block) : (reorder blocks).blocks.Perm blocks := by
  have moved := (order_perm blocks).map blocks.get
  rwa [List.map_get_finRange] at moved

/-- The place that the block at a place of the new order had before. -/
def origin (blocks : List Block) (place : Fin (reorder blocks).blocks.length) :
    Fin blocks.length :=
  (order blocks).get (place.cast (List.length_map ..))

/-- The block at a place of the new order is that of its place before. -/
theorem get_origin (blocks : List Block) (place : Fin (reorder blocks).blocks.length) :
    blocks.get (origin blocks place) = (reorder blocks).blocks.get place :=
  (List.getElem_map blocks.get).symm

/-- A place before is found at the place of the new order that has its block. -/
theorem idxOf_origin (blocks : List Block) (place : Fin (reorder blocks).blocks.length) :
    (order blocks).idxOf (origin blocks place) = place.val :=
  (order_nodup blocks).idxOf_getElem _ _

/-- The places of the new order and those before correspond. -/
theorem origin_bijective (blocks : List Block) : Function.Bijective (origin blocks) := by
  constructor
  · intro left right same
    rw [Fin.ext_iff, ← idxOf_origin blocks left, ← idxOf_origin blocks right, same]
  · intro node
    have member : node ∈ order blocks := (order_perm blocks).mem_iff.mpr (List.mem_finRange node)
    obtain ⟨place, inside, here⟩ := List.getElem_of_mem member
    exact ⟨⟨place, inside.trans_eq (List.length_map ..).symm⟩, here⟩

/-- Among distinct names, references correspond in the new order. -/
theorem edge_origin {blocks : List Block} (distinct : (blocks.map (·.name)).Nodup)
    (source target : Fin (reorder blocks).blocks.length) :
    (Digraph.ofBlocks (reorder blocks).blocks).Edge source target ↔
      (Digraph.ofBlocks blocks).Edge (origin blocks source) (origin blocks target) := by
  have distinct_after : ((reorder blocks).blocks.map (·.name)).Nodup :=
    ((reorder_perm blocks).map (·.name)).nodup_iff.mpr distinct
  constructor
  · intro edge
    refine edge_of_refers distinct ?_
    rw [get_origin, get_origin]
    exact refers_of_edge edge
  · intro edge
    refine edge_of_refers distinct_after ?_
    rw [← get_origin, ← get_origin]
    exact refers_of_edge edge

/-- In a list without repetition, what stands between two members of a part that stays together
belongs to the part. -/
theorem mem_of_between {α : Type} [DecidableEq α] {elements part : List α}
    (nodup : elements.Nodup) (together : part <:+: elements) {first middle last : α}
    (first_mem : first ∈ part) (last_mem : last ∈ part) (middle_mem : middle ∈ elements)
    (after : elements.idxOf first < elements.idxOf middle)
    (before : elements.idxOf middle < elements.idxOf last) : middle ∈ part := by
  obtain ⟨front, back, rfl⟩ := together
  rw [List.append_assoc] at nodup middle_mem after before
  have place {element : α} (member : element ∈ part) :
      (front ++ (part ++ back)).idxOf element = front.length + part.idxOf element := by
    have missing : element ∉ front := fun inFront =>
      List.disjoint_of_nodup_append nodup inFront (List.mem_append_left back member)
    rw [List.idxOf_append_of_notMem missing, List.idxOf_append_of_mem member]
  rw [place first_mem] at after
  rw [place last_mem] at before
  have last_inside := List.idxOf_lt_length_iff.mpr last_mem
  obtain inFront | inPart | inBack := List.mem_append.mp middle_mem |>.imp_right List.mem_append.mp
  · have inside := List.idxOf_lt_length_iff.mpr inFront
    rw [List.idxOf_append_of_mem inFront] at after
    omega
  · exact inPart
  · by_cases inPart : middle ∈ part
    · exact inPart
    · have missing : middle ∉ front := fun inFront =>
        List.disjoint_of_nodup_append nodup inFront (List.mem_append_right part inBack)
      rw [List.idxOf_append_of_notMem missing, List.idxOf_append_of_notMem inPart] at before
      omega

/-- Among distinct names, ordering by the schedule leaves the blocks arranged. -/
theorem arranged_reorder {blocks : List Block} (distinct : (blocks.map (·.name)).Nodup) :
    (Digraph.ofBlocks (reorder blocks).blocks).Arranged := by
  have mutual_iff {left right : Fin (reorder blocks).blocks.length} :
      (Digraph.ofBlocks (reorder blocks).blocks).Mutual left right ↔
        (Digraph.ofBlocks blocks).Mutual (origin blocks left) (origin blocks right) :=
    Digraph.mutual_iff_of_bijective (origin_bijective blocks) (edge_origin distinct)
  constructor
  · intro first middle last after before both
    have together := (Digraph.ofBlocks blocks).componentOf_contiguous (origin blocks first)
    have first_mem := Digraph.self_mem_componentOf (Digraph.ofBlocks blocks).components
      (origin blocks first)
    have last_mem : origin blocks last ∈
        Digraph.componentOf (Digraph.ofBlocks blocks).components (origin blocks first) :=
      Digraph.mem_componentOf.mpr (Digraph.components_eq_iff.mpr (mutual_iff.mp both).symm)
    have middle_mem : origin blocks middle ∈ order blocks :=
      (order_perm blocks).mem_iff.mpr (List.mem_finRange _)
    have between := mem_of_between (order_nodup blocks) together first_mem last_mem middle_mem
      (by rw [idxOf_origin, idxOf_origin]; exact after)
      (by rw [idxOf_origin, idxOf_origin]; exact before)
    exact mutual_iff.mpr (Digraph.components_eq_iff.mp (Digraph.mem_componentOf.mp between)).symm
  · intro source target edge apart
    have earlier := Digraph.idxOf_schedule_lt ((edge_origin distinct source target).mp edge)
      fun both => apart (mutual_iff.mpr both)
    change (order blocks).idxOf _ < (order blocks).idxOf _ at earlier
    rwa [idxOf_origin, idxOf_origin] at earlier

/-- Arranged blocks are ordered as they are. -/
theorem reorder_of_arranged {blocks : List Block} (arranged : (Digraph.ofBlocks blocks).Arranged) :
    (reorder blocks).blocks = blocks := by
  change (order blocks).map blocks.get = blocks
  rw [order, arranged.flatten_schedule, List.map_get_finRange]

/-- Among distinct names, ordering the blocks by the schedule again changes nothing. -/
theorem reorder_reorder {blocks : List Block} (distinct : (blocks.map (·.name)).Nodup) :
    (reorder (reorder blocks).blocks).blocks = (reorder blocks).blocks :=
  reorder_of_arranged (arranged_reorder distinct)

/-- Ordering by the schedule permutes the blocks as wholes; the strongly connected components of
their references stay together, each in its former order, and come after the components that they
refer to. In particular every block of a list without cycles comes after those it refers to. -/
theorem reorder_schedules (blocks : List Block) :
    (reorder blocks).blocks = (order blocks).map blocks.get ∧
      (order blocks).Perm (List.finRange blocks.length) ∧
      (reorder blocks).blocks.Perm blocks ∧
      (∀ node, ∃ members : List (Fin blocks.length),
        (∀ other, other ∈ members ↔ (Digraph.ofBlocks blocks).Mutual node other) ∧
          members.Pairwise (· < ·) ∧ members <:+: order blocks) ∧
      (∀ source target, (Digraph.ofBlocks blocks).Edge source target →
        ¬ (Digraph.ofBlocks blocks).Mutual source target →
        (order blocks).idxOf target < (order blocks).idxOf source) ∧
      ((Digraph.ofBlocks blocks).Acyclic →
        ∀ source target, ∀ name ∈ (blocks.get source).references,
          place? blocks name = some target.val →
          (order blocks).idxOf target < (order blocks).idxOf source) := by
  refine ⟨rfl, order_perm blocks, reorder_perm blocks, fun node => ?_, ?_,
    fun acyclic source target name refers placed => ?_⟩
  · refine ⟨Digraph.componentOf (Digraph.ofBlocks blocks).components node, fun other => ?_,
      Digraph.pairwise_componentOf _ node, (Digraph.ofBlocks blocks).componentOf_contiguous node⟩
    rw [Digraph.mem_componentOf, Digraph.components_eq_iff]
    exact ⟨Digraph.Mutual.symm, Digraph.Mutual.symm⟩
  · exact fun source target edge apart => Digraph.idxOf_schedule_lt edge apart
  · have edge : (Digraph.ofBlocks blocks).Edge source target :=
      edge_ofBlocks.mpr ⟨name, refers, placed⟩
    exact Digraph.idxOf_schedule_lt edge (acyclic.not_mutual edge)

/-- A block that refers to one of two blocks in a cycle. -/
def knotted : List Block :=
  [{ name := "Deal", lines := ["class Deal(Base):"], references := NameSet.ofList ["Offer"] },
   { name := "Offer", lines := ["class Offer(Base):"], references := NameSet.ofList ["Terms"] },
   { name := "Terms", lines := ["class Terms(Base):"], references := NameSet.ofList ["Offer"] }]

/-- The cycle comes before the block that refers to it, and without its last block, which leaves no
cycle, the first of its blocks does. -/
theorem reorder_schedules_knotted :
    (order knotted).idxOf ⟨1, by decide⟩ < (order knotted).idxOf ⟨0, by decide⟩ ∧
      (Digraph.ofBlocks (knotted.take 2)).Acyclic ∧
      (order (knotted.take 2)).idxOf ⟨1, by decide⟩ <
        (order (knotted.take 2)).idxOf ⟨0, by decide⟩ := by
  have stays : ∀ source target, (Digraph.ofBlocks knotted).Edge source target →
      1 ≤ source.val → 1 ≤ target.val := by decide
  have confined : ∀ node, (Digraph.ofBlocks knotted).Reaches ⟨1, by decide⟩ node →
      1 ≤ node.val := by
    intro node path
    induction path with
    | refl => exact Nat.le_refl 1
    | tail _ edge ih => exact stays _ _ edge ih
  have acyclic : (Digraph.ofBlocks (knotted.take 2)).Acyclic :=
    Digraph.acyclic_of_rank (fun node => 1 - node.val) (by decide)
  refine ⟨(reorder_schedules knotted).2.2.2.2.1 _ _ (by decide) fun both => ?_, acyclic, ?_⟩
  · exact absurd (confined _ both.2) (by decide)
  · exact (reorder_schedules (knotted.take 2)).2.2.2.2.2 acyclic _ _ "Offer" (by decide) (by decide)

end Schedule

end DeclOrder.Order
