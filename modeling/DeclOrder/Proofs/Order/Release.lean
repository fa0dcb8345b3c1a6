import DeclOrder.Order.Schedule
import DeclOrder.Proofs.Order.Components
import Mathlib.Data.List.FinRange
import Mathlib.Data.List.Nodup

/-!
# The release of components

A plain account of the order in which the components of a graph come out: of those that wait, in
the order of their first nodes, the first whose edges lead to nothing that still waits. The groups
of nodes with one component each fall apart and cover all nodes. As long as groups wait, the one
with the least component has all that its nodes lead to placed, so one of them is ready and every
group is released in the end.
-/

namespace DeclOrder.Order

namespace Digraph

variable {size : Nat}

/-- The nodes of a node's component in ascending order. -/
def componentOf (components : Table Nat size) (node : Fin size) : List (Fin size) :=
  (List.finRange size).filter fun other => components.entry other == components.entry node

/-- The components, each in ascending order, by their least nodes. -/
def groups (components : Table Nat size) : List (List (Fin size)) :=
  ((List.finRange size).map fun node => (node, componentOf components node)).filterMap
    fun (node, group) => if group.head? = some node then some group else none

/-- Every edge out of the group leads to a node placed already. -/
def ready (graph : Digraph size) (components : Table Nat size) (placed : Table Bool size)
    (group : List (Fin size)) : Bool :=
  group.all fun node =>
    (graph.next node).all fun target =>
      components.entry target == components.entry node || placed.entry target

/-- Mark the nodes of a group as placed. -/
def place (placed : Table Bool size) (group : List (Fin size)) : Table Bool size :=
  group.foldl (fun (placed : Table Bool size) (node : Fin size) => placed.put node true) placed

/-- The waiting groups in the order they become ready, the first of those ready first. -/
def release (graph : Digraph size) (components : Table Nat size) (placed : Table Bool size)
    (waiting : List (List (Fin size))) : List (List (Fin size)) :=
  match _next : waiting.find? (graph.ready components placed) with
  | none => []
  | some group =>
    group :: release graph components (place placed group) (waiting.erase group)
  termination_by waiting.length
  decreasing_by
    have waits := List.mem_of_find?_eq_some _next
    have positive := List.length_pos_of_mem waits
    rw [List.length_erase_of_mem waits]
    omega

variable {graph : Digraph size} {components : Table Nat size} {placed : Table Bool size}

/-- The nodes of a component. -/
theorem mem_componentOf {node other : Fin size} :
    other ∈ componentOf components node ↔ components.entry other = components.entry node := by
  simp [componentOf]

/-- A node is in its component. -/
theorem self_mem_componentOf (components : Table Nat size) (node : Fin size) :
    node ∈ componentOf components node :=
  mem_componentOf.mpr rfl

/-- The nodes of a component come in ascending order. -/
theorem pairwise_componentOf (components : Table Nat size) (node : Fin size) :
    (componentOf components node).Pairwise (· < ·) :=
  (List.pairwise_lt_finRange size).filter _

/-- Nodes with the same component share its list of nodes. -/
theorem componentOf_congr {left right : Fin size}
    (same : components.entry left = components.entry right) :
    componentOf components left = componentOf components right := by
  rw [componentOf, componentOf, same]

/-- The groups are the components of the nodes. -/
theorem mem_groups {group : List (Fin size)} :
    group ∈ groups components ↔ ∃ node, group = componentOf components node := by
  have shape : group ∈ groups components ↔ ∃ node,
      (componentOf components node).head? = some node ∧ componentOf components node = group := by
    simp [groups]
  rw [shape]
  constructor
  · rintro ⟨node, -, rfl⟩
    exact ⟨node, rfl⟩
  · rintro ⟨node, rfl⟩
    obtain ⟨first, others, split⟩ := List.exists_cons_of_ne_nil
      (List.ne_nil_of_mem (self_mem_componentOf components node))
    have member : first ∈ componentOf components node := split ▸ List.mem_cons_self
    have same := componentOf_congr (mem_componentOf.mp member)
    exact ⟨first, by rw [same, split, List.head?_cons], same⟩

/-- The groups come in the order of their first nodes. -/
theorem pairwise_groups (components : Table Nat size) :
    (groups components).Pairwise fun left right =>
      ∃ earlier later, left.head? = some earlier ∧ right.head? = some later ∧ earlier < later := by
  rw [groups, List.filterMap_map, List.pairwise_filterMap]
  refine (List.pairwise_lt_finRange size).imp fun {earlier later} less => ?_
  intro left left_eq right right_eq
  simp only [Function.comp_apply, Option.ite_none_right_eq_some, Option.some.injEq]
    at left_eq right_eq
  obtain ⟨left_head, rfl⟩ := left_eq
  obtain ⟨right_head, rfl⟩ := right_eq
  exact ⟨earlier, later, left_head, right_head, less⟩

/-- Every node is in exactly one group, once. -/
theorem flatten_groups_perm (components : Table Nat size) :
    (groups components).flatten.Perm (List.finRange size) := by
  have apart : (groups components).Pairwise List.Disjoint := by
    refine (pairwise_groups components).imp_of_mem fun {left right} leftMember rightMember => ?_
    rintro ⟨earlier, later, left_head, right_head, less⟩ node inLeft inRight
    obtain ⟨leftNode, rfl⟩ := mem_groups.mp leftMember
    obtain ⟨rightNode, rfl⟩ := mem_groups.mp rightMember
    have same : components.entry leftNode = components.entry rightNode :=
      (mem_componentOf.mp inLeft).symm.trans (mem_componentOf.mp inRight)
    rw [componentOf_congr same, right_head] at left_head
    exact absurd (Option.some.inj left_head) (Fin.ne_of_gt less)
  have nodup : (groups components).flatten.Nodup := by
    refine List.nodup_flatten.mpr ⟨fun group member => ?_, apart⟩
    obtain ⟨node, rfl⟩ := mem_groups.mp member
    exact (pairwise_componentOf components node).imp Fin.ne_of_lt
  refine (List.perm_ext_iff_of_nodup nodup (List.nodup_finRange size)).mpr fun node => ?_
  have grouped : node ∈ (groups components).flatten := by
    rw [List.mem_flatten]
    exact ⟨_, mem_groups.mpr ⟨node, rfl⟩, self_mem_componentOf components node⟩
  simp [grouped]

/-- The smallest place of a group. -/
def key (group : List (Fin size)) : Nat := (group.map (·.val)).min?.getD size

/-- The key of a group in ascending order is its first node. -/
theorem key_of_head? {group : List (Fin size)} {first : Fin size}
    (ascending : group.Pairwise (· < ·)) (head : group.head? = some first) :
    key group = first.val := by
  obtain ⟨rest, rfl⟩ := List.head?_eq_some_iff.mp head
  have least : ((first :: rest).map (·.val)).min? = some first.val := by
    refine List.min?_eq_some_iff.mpr ⟨List.mem_map_of_mem List.mem_cons_self, ?_⟩
    intro place member
    obtain ⟨node, listed, rfl⟩ := List.mem_map.mp member
    rcases List.mem_cons.mp listed with rfl | later
    · exact Nat.le_refl _
    · exact Nat.le_of_lt ((List.pairwise_cons.mp ascending).1 node later)
  rw [key, least, Option.getD_some]

/-- The groups come in the order of their keys. -/
theorem pairwise_key_groups (components : Table Nat size) :
    (groups components).Pairwise fun left right => key left < key right := by
  refine (pairwise_groups components).imp_of_mem fun {left right} leftMember rightMember => ?_
  rintro ⟨earlier, later, left_head, right_head, less⟩
  obtain ⟨leftNode, rfl⟩ := mem_groups.mp leftMember
  obtain ⟨rightNode, rfl⟩ := mem_groups.mp rightMember
  rw [key_of_head? (pairwise_componentOf components leftNode) left_head,
    key_of_head? (pairwise_componentOf components rightNode) right_head]
  exact less

/-- No group is repeated. -/
theorem nodup_groups (components : Table Nat size) : (groups components).Nodup :=
  (pairwise_key_groups components).imp fun less same => absurd (same ▸ less) (Nat.lt_irrefl _)

/-- There are no more groups than nodes. -/
theorem length_groups_le (components : Table Nat size) : (groups components).length ≤ size := by
  rw [groups]
  refine (List.length_filterMap_le _ _).trans_eq ?_
  rw [List.length_map, List.length_finRange]

/-- Nothing is released when no waiting group is ready. -/
theorem release_of_find?_none {waiting : List (List (Fin size))}
    (found : waiting.find? (graph.ready components placed) = none) :
    graph.release components placed waiting = [] := by
  rw [release]
  split
  · rfl
  · next group other => exact absurd (found.symm.trans other) (Option.some_ne_none group).symm

/-- The first waiting group that is ready is released before the others. -/
theorem release_of_find?_some {waiting : List (List (Fin size))} {group : List (Fin size)}
    (found : waiting.find? (graph.ready components placed) = some group) :
    graph.release components placed waiting =
      group :: graph.release components (place placed group) (waiting.erase group) := by
  rw [release]
  split
  · next absent => exact absurd (found.symm.trans absent) (Option.some_ne_none group)
  · next other same => rw [Option.some.inj (same.symm.trans found)]

/-- A placed group adds its nodes to those placed. -/
theorem entry_place (placed : Table Bool size) (group : List (Fin size)) (node : Fin size) :
    (place placed group).entry node = (decide (node ∈ group) || placed.entry node) := by
  rw [place, Search.entry_foldl_put]
  by_cases member : node ∈ group <;> simp [member]

/-- Placed groups add all their nodes to those placed. -/
theorem entry_foldl_place (groups : List (List (Fin size))) (placed : Table Bool size)
    (node : Fin size) :
    (groups.foldl place placed).entry node =
      (decide (node ∈ groups.flatten) || placed.entry node) := by
  induction groups generalizing placed with
  | nil => simp
  | cons group groups ih =>
    rw [List.foldl_cons, ih, entry_place, List.flatten_cons]
    by_cases first : node ∈ group <;> simp [first]

/-- A group is ready when all edges out of its nodes stay in the component or lead to a node placed
already. -/
theorem ready_iff {group : List (Fin size)} :
    graph.ready components placed group = true ↔
      ∀ node ∈ group, ∀ target, graph.Edge node target →
        components.entry target = components.entry node ∨ placed.entry target = true := by
  simp [ready, Edge]

/-- What holds of the groups that wait: they are components, and the other nodes are placed. -/
structure Awaited (components : Table Nat size) (placed : Table Bool size)
    (waiting : List (List (Fin size))) : Prop where
  /-- Every waiting group is a component. -/
  component : ∀ group ∈ waiting, ∃ node, group = componentOf components node
  /-- A node that is not placed waits with its component. -/
  waits : ∀ node, placed.entry node = true ∨ componentOf components node ∈ waiting

/-- Placing a waiting group leaves the others waiting. -/
theorem Awaited.place {waiting : List (List (Fin size))}
    (awaited : Awaited components placed waiting) (group : List (Fin size)) :
    Awaited components (place placed group) (waiting.erase group) := by
  constructor
  · intro other member
    exact awaited.component other (List.mem_of_mem_erase member)
  · intro node
    rw [entry_place]
    rcases awaited.waits node with before | waits
    · exact .inl (by rw [before, Bool.or_true])
    · by_cases same : componentOf components node = group
      · exact .inl (by simp [← same, self_mem_componentOf])
      · exact .inr ((List.mem_erase_of_ne same).mpr waits)

/-- As long as groups wait, one of them is ready. -/
theorem Awaited.exists_ready {waiting : List (List (Fin size))}
    (awaited : Awaited graph.components placed waiting) (some_waits : waiting ≠ []) :
    ∃ group ∈ waiting, graph.ready graph.components placed group = true := by
  -- A group that is not ready leads to a waiting one with a smaller component.
  have descend (id : Nat) : ∀ node, graph.components.entry node = id →
      componentOf graph.components node ∈ waiting →
      ∃ group ∈ waiting, graph.ready graph.components placed group = true := by
    induction id using Nat.strong_induction_on with
    | h id ih =>
      intro node node_id waits
      by_cases ready :
          graph.ready graph.components placed (componentOf graph.components node) = true
      · exact ⟨_, waits, ready⟩
      · rw [ready_iff] at ready
        push Not at ready
        obtain ⟨member, inGroup, target, edge, different, missing⟩ := ready
        have smaller : graph.components.entry target < graph.components.entry member :=
          Nat.lt_of_le_of_ne (components_le_of_edge edge) different
        rw [mem_componentOf.mp inGroup, node_id] at smaller
        exact ih _ smaller target rfl ((awaited.waits target).resolve_left missing)
  obtain ⟨group, others, rfl⟩ := List.exists_cons_of_ne_nil some_waits
  obtain ⟨node, rfl⟩ := awaited.component group List.mem_cons_self
  exact descend _ node rfl List.mem_cons_self

/-- Every waiting group is released. -/
theorem release_perm {waiting : List (List (Fin size))}
    (awaited : Awaited graph.components placed waiting) :
    (graph.release graph.components placed waiting).Perm waiting := by
  fun_induction release graph graph.components placed waiting with
  | case1 placed waiting none_ready =>
    cases waiting with
    | nil => exact .refl _
    | cons first others =>
      obtain ⟨group, member, ready⟩ := awaited.exists_ready (List.cons_ne_nil first others)
      exact absurd ready (List.find?_eq_none.mp none_ready group member)
  | case2 placed waiting group found ih =>
    have member := List.mem_of_find?_eq_some found
    exact ((ih (awaited.place group)).cons group).trans (List.perm_cons_erase member).symm

/-- A released group is ready once those released before it are placed. -/
theorem ready_of_release {waiting before after : List (List (Fin size))} {group : List (Fin size)}
    (split : graph.release components placed waiting = before ++ group :: after) :
    graph.ready components (before.foldl place placed) group = true := by
  fun_induction release graph components placed waiting generalizing before with
  | case1 => simp at split
  | case2 placed waiting first found ih =>
    cases before with
    | nil =>
      obtain ⟨rfl, -⟩ := List.cons.inj split
      exact List.find?_some found
    | cons _ before =>
      obtain ⟨rfl, rest⟩ := List.cons.inj split
      exact ih rest

/-- At first all groups wait. -/
theorem awaited_groups (components : Table Nat size) :
    Awaited components (.all size false) (groups components) :=
  ⟨fun _ member => mem_groups.mp member, fun node => .inr (mem_groups.mpr ⟨node, rfl⟩)⟩

/-- Of the waiting groups that are ready, the one found first has the least key. -/
theorem key_lt_of_find? {waiting : List (List (Fin size))} {group other : List (Fin size)}
    (ascending : waiting.Pairwise fun left right => key left < key right)
    (found : waiting.find? (graph.ready components placed) = some group) (waits : other ∈ waiting)
    (ready : graph.ready components placed other = true) (different : other ≠ group) :
    key group < key other := by
  obtain ⟨-, before, after, rfl, unready⟩ := List.find?_eq_some_iff_append.mp found
  rcases List.mem_append.mp waits with first | later
  · have not_ready := unready other first
    rw [ready] at not_ready
    exact absurd not_ready Bool.false_ne_true
  · have behind := (List.mem_cons.mp later).resolve_left different
    exact (List.pairwise_cons.mp (List.pairwise_append.mp ascending).2.1).1 other behind

end Digraph

end DeclOrder.Order
