import DeclOrder.Proofs.Order.Precedence

/-!
# Turns of components

The turn of a node is the place of its component in the schedule. Turns do not rise along edges, and
nodes of one component share theirs, so whether one node comes before another in the schedule is a
matter of their turns or, within a component, of the nodes themselves. A component whose turn comes
while another one still waits has the smaller key, or the other one has to wait for something. So
what all has a smaller key than something that a node leads to comes before that node.
-/

namespace DeclOrder.Order

open scoped List

/-- What has the smaller index comes first in the list. -/
theorem pair_sublist_of_idxOf_lt {α : Type} [DecidableEq α] {elements : List α} {first second : α}
    (listed : second ∈ elements) (less : elements.idxOf first < elements.idxOf second) :
    [first, second] <+ elements := by
  induction elements with
  | nil => exact absurd listed List.not_mem_nil
  | cons head rest ih =>
    by_cases here : head = first
    · subst here
      have different : second ≠ head := by
        rintro rfl
        exact Nat.lt_irrefl _ less
      have later := (List.mem_cons.mp listed).resolve_left different
      exact (List.singleton_sublist.mpr later).cons_cons head
    · have apart : head ≠ second := by
        rintro rfl
        rw [List.idxOf_cons_self] at less
        exact Nat.not_lt_zero _ less
      rw [List.idxOf_cons_ne rest here, List.idxOf_cons_ne rest apart] at less
      have later := (List.mem_cons.mp listed).resolve_left apart.symm
      exact (ih later (Nat.lt_of_succ_lt_succ less)).cons head

/-- In a list without repetition, what comes first has the smaller index. -/
theorem idxOf_lt_of_pair_sublist {α : Type} [DecidableEq α] {elements : List α} {first second : α}
    (nodup : elements.Nodup) (ordered : [first, second] <+ elements) :
    elements.idxOf first < elements.idxOf second := by
  have ascending :
      elements.Pairwise fun left right => elements.idxOf left < elements.idxOf right := by
    refine List.pairwise_iff_getElem.mpr fun left right left_in right_in less => ?_
    rwa [nodup.idxOf_getElem left left_in, nodup.idxOf_getElem right right_in]
  exact List.pairwise_iff_forall_sublist.mp ascending ordered

namespace Digraph

variable {size : Nat} {graph : Digraph size} {components : Table Nat size}
  {placed : Table Bool size}

/-- A released group has a smaller key than every other one that waits and is ready. -/
theorem key_lt_of_release {waiting before after : List (List (Fin size))}
    {group other : List (Fin size)}
    (ascending : waiting.Pairwise fun left right => key left < key right)
    (split : graph.release components placed waiting = before ++ group :: after)
    (waits : other ∈ waiting) (unreleased : other ∉ before) (different : other ≠ group)
    (ready : graph.ready components (before.foldl place placed) other = true) :
    key group < key other := by
  fun_induction release graph components placed waiting generalizing before with
  | case1 => simp at split
  | case2 placed waiting first found ih =>
    cases before with
    | nil =>
      obtain ⟨rfl, -⟩ := List.cons.inj split
      exact key_lt_of_find? ascending found waits ready different
    | cons earlier before =>
      obtain ⟨rfl, rest⟩ := List.cons.inj split
      have apart : other ≠ first := fun same => unreleased (same ▸ List.mem_cons_self)
      have missing : other ∉ before := fun member => unreleased (List.mem_cons_of_mem first member)
      exact ih (ascending.sublist List.erase_sublist) rest
        ((List.mem_erase_of_ne apart).mpr waits) missing ready

/-- The place of the component of a node in the schedule. -/
def turn (graph : Digraph size) (node : Fin size) : Nat :=
  graph.schedule.idxOf (componentOf graph.components node)

/-- A schedule has no component twice. -/
theorem schedule_nodup (graph : Digraph size) : graph.schedule.Nodup :=
  graph.schedule_perm.nodup_iff.mpr (nodup_groups graph.components)

/-- Where the schedule is split at the component of a node, the components of smaller turn are those
in front. -/
theorem mem_front_iff {before after : List (List (Fin size))} {node other : Fin size}
    (split : graph.schedule = before ++ componentOf graph.components node :: after) :
    componentOf graph.components other ∈ before ↔ graph.turn other < graph.turn node := by
  have nodup := graph.schedule_nodup
  rw [split] at nodup
  have missing : componentOf graph.components node ∉ before := fun member =>
    List.disjoint_of_nodup_append nodup member List.mem_cons_self
  have own : graph.turn node = before.length := by
    rw [turn, split, List.idxOf_append_of_notMem missing, List.idxOf_cons_self, Nat.add_zero]
  rw [own, turn, split]
  by_cases inside : componentOf graph.components other ∈ before
  · rw [List.idxOf_append_of_mem inside]
    exact iff_of_true inside (List.idxOf_lt_length_iff.mpr inside)
  · rw [List.idxOf_append_of_notMem inside]
    exact iff_of_false inside (Nat.not_lt.mpr (Nat.le_add_right _ _))

/-- A node stands in some of the components exactly when they have its own. -/
theorem mem_flatten_iff {before after : List (List (Fin size))} {node : Fin size}
    (split : graph.schedule = before ++ after) :
    node ∈ before.flatten ↔ componentOf graph.components node ∈ before := by
  rw [List.mem_flatten]
  constructor
  · rintro ⟨group, member, inside⟩
    have listed : group ∈ graph.schedule := split ▸ List.mem_append_left after member
    obtain ⟨other, rfl⟩ := mem_groups.mp (graph.schedule_perm.mem_iff.mp listed)
    rwa [componentOf_congr (mem_componentOf.mp inside)]
  · intro member
    exact ⟨_, member, self_mem_componentOf graph.components node⟩

/-- Nodes share their turn if they share their component. -/
theorem turn_congr {left right : Fin size} (joined : graph.Mutual left right) :
    graph.turn left = graph.turn right := by
  rw [turn, turn, componentOf_congr (components_eq_iff.mpr joined)]

/-- Nodes with the same turn are in the same component. -/
theorem mutual_of_turn_eq {left right : Fin size} (same : graph.turn left = graph.turn right) :
    graph.Mutual left right := by
  have listed : componentOf graph.components left ∈ graph.schedule :=
    graph.schedule_perm.mem_iff.mpr (mem_groups.mpr ⟨left, rfl⟩)
  have equal := (List.idxOf_inj listed).mp same
  have member : left ∈ componentOf graph.components right :=
    equal ▸ self_mem_componentOf graph.components left
  exact components_eq_iff.mp (mem_componentOf.mp member)

/-- What comes first in the schedule has the smaller turn. -/
theorem turn_le_of_idxOf_lt {left right : Fin size}
    (before : graph.schedule.flatten.idxOf left < graph.schedule.flatten.idxOf right) :
    graph.turn left ≤ graph.turn right := by
  by_contra! later
  obtain ⟨front, rest, split⟩ := graph.exists_schedule_split left
  have right_front : right ∈ front.flatten :=
    (mem_flatten_iff split).mpr ((mem_front_iff split).mpr later)
  have left_missing : left ∉ front.flatten := fun member =>
    absurd ((mem_front_iff split).mp ((mem_flatten_iff split).mp member)) (Nat.lt_irrefl _)
  rw [split, List.flatten_append, List.idxOf_append_of_mem right_front,
    List.idxOf_append_of_notMem left_missing] at before
  have inside := List.idxOf_lt_length_iff.mpr right_front
  omega

/-- What has the smaller turn comes first in the schedule. -/
theorem idxOf_lt_of_turn_lt {left right : Fin size} (sooner : graph.turn left < graph.turn right) :
    graph.schedule.flatten.idxOf left < graph.schedule.flatten.idxOf right := by
  have listed : left ∈ graph.schedule.flatten :=
    graph.flatten_schedule_perm.mem_iff.mpr (List.mem_finRange left)
  have different : graph.schedule.flatten.idxOf left ≠ graph.schedule.flatten.idxOf right := by
    intro same
    rw [(List.idxOf_inj listed).mp same] at sooner
    exact Nat.lt_irrefl _ sooner
  by_contra! after
  have turns := turn_le_of_idxOf_lt (Nat.lt_of_le_of_ne after different.symm)
  omega

/-- Turns do not rise along an edge. -/
theorem turn_le_of_edge {source target : Fin size} (edge : graph.Edge source target) :
    graph.turn target ≤ graph.turn source := by
  by_cases joined : graph.Mutual source target
  · exact (turn_congr joined).symm.le
  · exact turn_le_of_idxOf_lt (idxOf_schedule_lt edge joined)

/-- Turns do not rise along a path. -/
theorem turn_le_of_reaches {source target : Fin size} (path : graph.Reaches source target) :
    graph.turn target ≤ graph.turn source := by
  induction path with
  | refl => exact Nat.le_refl _
  | tail _ edge ih => exact (turn_le_of_edge edge).trans ih

/-- A component has a smaller key than another one that lies behind some member of it. -/
theorem key_componentOf_lt {left right first : Fin size}
    (inside : first ∈ componentOf components left)
    (behind : ∀ node ∈ componentOf components right, first < node) :
    key (componentOf components left) < key (componentOf components right) := by
  have left_ascending := pairwise_componentOf components left
  have right_ascending := pairwise_componentOf components right
  have right_member := self_mem_componentOf components right
  cases left_split : componentOf components left with
  | nil => exact absurd (left_split ▸ inside) List.not_mem_nil
  | cons least later =>
    cases right_split : componentOf components right with
    | nil => exact absurd (right_split ▸ right_member) List.not_mem_nil
    | cons other rest =>
      rw [left_split] at left_ascending inside
      rw [right_split] at right_ascending behind
      rw [key_of_head? left_ascending rfl, key_of_head? right_ascending rfl]
      have first_less := behind other List.mem_cons_self
      have least_le : least ≤ first := by
        rcases List.mem_cons.mp inside with rfl | tail
        · exact le_refl _
        · exact le_of_lt ((List.pairwise_cons.mp left_ascending).1 first tail)
      exact Fin.lt_def.mp (least_le.trans_lt first_less)

/-- A node comes before another one that leads to something with a greater key than all that the
node leads to. -/
theorem turn_lt_of_key_lt {base heir latest : Fin size} (needs : graph.Reaches heir latest)
    (sooner : ∀ used, graph.Reaches base used →
      key (componentOf graph.components used) < key (componentOf graph.components latest)) :
    graph.turn base < graph.turn heir := by
  by_contra! waits
  have latest_first : graph.turn latest ≤ graph.turn base := (turn_le_of_reaches needs).trans waits
  obtain ⟨before, after, split⟩ := graph.exists_schedule_split latest
  -- Of what the base leads to and still waits at that turn, take the least component: it is ready.
  obtain ⟨used, ⟨path, unplaced⟩, least⟩ := (measure graph.components.entry).wf.has_min
    {used | graph.Reaches base used ∧ graph.turn latest ≤ graph.turn used}
    ⟨base, Reaches.refl base, latest_first⟩
  have missing : componentOf graph.components used ∉ before := fun member =>
    Nat.not_lt.mpr unplaced ((mem_front_iff split).mp member)
  have ready : graph.ready graph.components (before.foldl place (.all size false))
      (componentOf graph.components used) = true := by
    refine ready_iff.mpr fun node member target edge => ?_
    have same := mem_componentOf.mp member
    have reached : graph.Reaches base target :=
      (path.trans (components_eq_iff.mp same).2).trans (Reaches.edge edge)
    by_cases early : graph.turn target < graph.turn latest
    · right
      have placed : target ∈ before.flatten :=
        (mem_flatten_iff split).mpr ((mem_front_iff split).mpr early)
      rw [entry_foldl_place, decide_eq_true placed, Bool.true_or]
    · left
      have not_less : ¬ graph.components.entry target < graph.components.entry used :=
        least target ⟨reached, Nat.not_lt.mp early⟩
      have descends := components_le_of_edge edge
      omega
  have less := sooner used path
  have different : componentOf graph.components used ≠ componentOf graph.components latest := by
    intro same
    rw [same] at less
    exact Nat.lt_irrefl _ less
  rw [schedule_eq_release] at split
  have greater := key_lt_of_release (pairwise_key_groups graph.components) split
    (mem_groups.mpr ⟨used, rfl⟩) missing different ready
  omega

/-- Nodes that are in order stay so in the schedule if the turn of the first is not the later
one. -/
theorem pair_sublist_schedule {left right : Fin size} (less : left < right)
    (turns : graph.turn left ≤ graph.turn right) : [left, right] <+ graph.schedule.flatten := by
  have listed : right ∈ graph.schedule.flatten :=
    graph.flatten_schedule_perm.mem_iff.mpr (List.mem_finRange right)
  rcases Nat.lt_or_eq_of_le turns with sooner | same
  · exact pair_sublist_of_idxOf_lt listed (idxOf_lt_of_turn_lt sooner)
  · have joined := mutual_of_turn_eq same
    have ordered : [left, right] <+ List.finRange size := by
      refine pair_sublist_of_idxOf_lt (List.mem_finRange right) ?_
      rwa [List.idxOf_finRange, List.idxOf_finRange]
    have members : [left, right] <+ componentOf graph.components left := by
      rw [componentOf]
      have filtered := ordered.filter fun node =>
        graph.components.entry node == graph.components.entry left
      simpa [components_eq_iff.mpr joined.symm] using filtered
    exact members.trans (graph.componentOf_contiguous left).sublist

end Digraph

end DeclOrder.Order
