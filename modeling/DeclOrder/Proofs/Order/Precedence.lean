import DeclOrder.Proofs.Order.Scheduling
import Mathlib

/-!
# The precedence of components

Many sequences of the strongly connected components have each of them after the others that it has
an edge to. The schedule is the one among them that keeps the former order best: compared by the
smallest nodes of their members, from the first member on, it is less than all others. For what is
released first is the least of all that is ready, and every other sequence starts with something
that is ready too.
-/

namespace DeclOrder.Order

namespace Digraph

variable {size : Nat} {graph : Digraph size} {components : Table Nat size}
  {placed : Table Bool size}

/-- The sequence has every strongly connected component once, after the others that it has an edge
to. -/
structure Sequenced (graph : Digraph size) (sequence : List (List (Fin size))) : Prop where
  /-- Every member consists of the nodes of a component in ascending order. -/
  component : ∀ group ∈ sequence,
    group.Pairwise (· < ·) ∧ ∃ node, ∀ other, other ∈ group ↔ graph.Mutual node other
  /-- Every node is in a member. -/
  complete : ∀ node, ∃ group ∈ sequence, node ∈ group
  /-- No member is repeated. -/
  nodup : sequence.Nodup
  /-- An edge out of a member leads to a member before it. -/
  back : ∀ before group after, sequence = before ++ group :: after →
    ∀ source ∈ group, ∀ target, graph.Edge source target → target ∉ group →
      ∃ earlier ∈ before, target ∈ earlier

/-- The nodes of a strongly connected component in ascending order are those that the search gives
one number. -/
theorem eq_componentOf {group : List (Fin size)} {node : Fin size}
    (ascending : group.Pairwise (· < ·))
    (members : ∀ other, other ∈ group ↔ graph.Mutual node other) :
    group = componentOf graph.components node := by
  have same : group.Perm (componentOf graph.components node) := by
    refine (List.perm_ext_iff_of_nodup (ascending.imp Fin.ne_of_lt)
      ((pairwise_componentOf graph.components node).imp Fin.ne_of_lt)).mpr fun other => ?_
    rw [members, mem_componentOf, components_eq_iff]
    exact ⟨Mutual.symm, Mutual.symm⟩
  exact same.eq_of_pairwise
    (fun _ _ _ _ less greater => absurd greater (Fin.not_lt.mpr (Fin.le_of_lt less)))
    ascending (pairwise_componentOf graph.components node)

section Sequences

variable {sequence : List (List (Fin size))}

/-- A sequence of the components has the groups as its members. -/
theorem Sequenced.perm (sequenced : graph.Sequenced sequence) :
    sequence.Perm (groups graph.components) := by
  refine (List.perm_ext_iff_of_nodup sequenced.nodup (nodup_groups _)).mpr fun group => ?_
  rw [mem_groups]
  constructor
  · intro member
    obtain ⟨ascending, node, members⟩ := sequenced.component group member
    exact ⟨node, eq_componentOf ascending members⟩
  · rintro ⟨node, rfl⟩
    obtain ⟨group, member, inside⟩ := sequenced.complete node
    obtain ⟨ascending, other, members⟩ := sequenced.component group member
    have shared : graph.components.entry node = graph.components.entry other :=
      components_eq_iff.mpr ((members node).mp inside).symm
    rwa [componentOf_congr shared, ← eq_componentOf ascending members]

/-- A member of a sequence of the components is ready when those before it are placed. -/
theorem Sequenced.ready (sequenced : graph.Sequenced sequence)
    {before after : List (List (Fin size))} {group : List (Fin size)}
    (split : sequence = before ++ group :: after) :
    graph.ready graph.components (before.foldl place placed) group = true := by
  refine ready_iff.mpr fun source inside target edge => ?_
  have member : group ∈ sequence := split ▸ List.mem_append_right before List.mem_cons_self
  obtain ⟨-, node, members⟩ := sequenced.component group member
  by_cases within : target ∈ group
  · refine .inl (components_eq_iff.mpr ?_)
    exact ((members target).mp within).symm.trans ((members source).mp inside)
  · obtain ⟨earlier, placed_earlier, found⟩ :=
      sequenced.back before group after split source inside target edge within
    have flat : target ∈ before.flatten := List.mem_flatten.mpr ⟨earlier, placed_earlier, found⟩
    exact .inr (by rw [entry_foldl_place, decide_eq_true flat, Bool.true_or])

/-- Groups in any order of them are a sequence of the components if each is ready when those before
it are placed. -/
theorem sequenced_of_perm (perm : sequence.Perm (groups graph.components))
    (ready : ∀ before group after, sequence = before ++ group :: after →
      graph.ready graph.components (before.foldl place (.all size false)) group = true) :
    graph.Sequenced sequence where
  component group member := by
    obtain ⟨node, rfl⟩ := mem_groups.mp (perm.mem_iff.mp member)
    refine ⟨pairwise_componentOf graph.components node, node, fun other => ?_⟩
    rw [mem_componentOf, components_eq_iff]
    exact ⟨Mutual.symm, Mutual.symm⟩
  complete node :=
    ⟨_, perm.mem_iff.mpr (mem_groups.mpr ⟨node, rfl⟩), self_mem_componentOf graph.components node⟩
  nodup := perm.nodup_iff.mpr (nodup_groups _)
  back before group after split source inside target edge outside := by
    have member : group ∈ sequence := split ▸ List.mem_append_right before List.mem_cons_self
    obtain ⟨node, rfl⟩ := mem_groups.mp (perm.mem_iff.mp member)
    have apart : graph.components.entry target ≠ graph.components.entry source := fun same =>
      outside (mem_componentOf.mpr (same.trans (mem_componentOf.mp inside)))
    have found := (ready_iff.mp (ready _ _ _ split) source inside target edge).resolve_left apart
    rw [entry_foldl_place, Bool.or_eq_true, decide_eq_true_eq] at found
    exact List.mem_flatten.mp (found.resolve_right (by simp))

/-- A schedule is a sequence of the components. -/
theorem sequenced_schedule (graph : Digraph size) : graph.Sequenced graph.schedule :=
  sequenced_of_perm graph.schedule_perm fun _ _ _ split => ready_of_schedule split

end Sequences

/-- Groups that wait in the order of their keys are released before any other sequence of them in
which each is ready when its turn comes. -/
theorem Awaited.release_least {waiting other : List (List (Fin size))}
    (awaited : Awaited graph.components placed waiting)
    (ascending : waiting.Pairwise fun left right => key left < key right)
    (perm : other.Perm waiting)
    (ready : ∀ before group after, other = before ++ group :: after →
      graph.ready graph.components (before.foldl Digraph.place placed) group = true) :
    other = graph.release graph.components placed waiting ∨
      List.Lex (· < ·) ((graph.release graph.components placed waiting).map key)
        (other.map key) := by
  fun_induction release graph graph.components placed waiting generalizing other with
  | case1 placed waiting none_ready =>
    cases waiting with
    | nil => exact .inl perm.eq_nil
    | cons first rest =>
      obtain ⟨group, member, isReady⟩ := awaited.exists_ready (List.cons_ne_nil first rest)
      exact absurd isReady (List.find?_eq_none.mp none_ready group member)
  | case2 placed waiting group found ih =>
    have waits := List.mem_of_find?_eq_some found
    obtain ⟨first, rest, rfl⟩ :=
      List.exists_cons_of_ne_nil (List.ne_nil_of_mem (perm.mem_iff.mpr waits))
    have first_ready : graph.ready graph.components placed first = true := ready [] first rest rfl
    by_cases same : first = group
    · subst same
      have remaining : rest.Perm (waiting.erase first) :=
        (perm.trans (List.perm_cons_erase waits)).cons_inv
      have rest_ready (before : List (List (Fin size))) (group : List (Fin size))
          (after : List (List (Fin size))) (split : rest = before ++ group :: after) :
          graph.ready graph.components (before.foldl Digraph.place (Digraph.place placed first))
            group = true :=
        ready (first :: before) group after (congrArg (first :: ·) split)
      rcases ih (awaited.place first) (ascending.sublist List.erase_sublist) remaining rest_ready
        with equal | less
      · exact .inl (congrArg (first :: ·) equal)
      · exact .inr (.cons less)
    · have member := perm.mem_iff.mp List.mem_cons_self
      exact .inr (.rel (key_lt_of_find? ascending found member first_ready same))

end Digraph

namespace Schedule

open DeclOrder.Order.Digraph (key)

/-- Ordering by the schedule puts out the components of the reference graph one after another, in a
sequence that has each of them after the others that it refers to. Compared by the smallest former
places of their members, every other such sequence is greater. -/
theorem reorder_least (blocks : List Block) :
    (reorder blocks).blocks = (Digraph.ofBlocks blocks).schedule.flatten.map blocks.get ∧
      (Digraph.ofBlocks blocks).Sequenced (Digraph.ofBlocks blocks).schedule ∧
      ∀ other, (Digraph.ofBlocks blocks).Sequenced other →
        other = (Digraph.ofBlocks blocks).schedule ∨
          List.Lex (· < ·) ((Digraph.ofBlocks blocks).schedule.map key) (other.map key) := by
  refine ⟨rfl, Digraph.sequenced_schedule _, fun other sequenced => ?_⟩
  rw [Digraph.schedule_eq_release]
  exact (Digraph.awaited_groups _).release_least (Digraph.pairwise_key_groups _) sequenced.perm
    fun _ _ _ split => sequenced.ready split

/-- The knotted blocks, and behind them one that has nothing to do with them. -/
def loosened : List Block := knotted ++ [{ name := "Unit", lines := ["class Unit(Base):"] }]

/-- The last of the loosened blocks could come first, before the cycle of the second and the third.
The cycle comes first in the schedule, since it stood before the last block. -/
theorem reorder_least_loosened :
    (Digraph.ofBlocks loosened).Sequenced
        [[⟨3, by decide⟩], [⟨1, by decide⟩, ⟨2, by decide⟩], [⟨0, by decide⟩]] ∧
      (Digraph.ofBlocks loosened).schedule.map (·.map Fin.val) = [[1, 2], [0], [3]] ∧
      List.Lex (· < ·) ((Digraph.ofBlocks loosened).schedule.map key) [3, 1, 0] := by
  have scheduled : (Digraph.ofBlocks loosened).schedule.map (·.map Fin.val) =
      [[1, 2], [0], [3]] := by cbv
  have sequenced : (Digraph.ofBlocks loosened).Sequenced
      [[⟨3, by decide⟩], [⟨1, by decide⟩, ⟨2, by decide⟩], [⟨0, by decide⟩]] := by
    refine Digraph.sequenced_of_perm ?_ fun before group after split => ?_
    · have grouped : Digraph.groups (Digraph.ofBlocks loosened).components =
          [[⟨0, by decide⟩], [⟨1, by decide⟩, ⟨2, by decide⟩], [⟨3, by decide⟩]] := by cbv
      rw [grouped]
      decide
    · rcases before with _ | ⟨first, _ | ⟨second, _ | ⟨third, before⟩⟩⟩ <;>
        simp only [List.nil_append, List.cons_append, List.cons.injEq] at split
      · obtain ⟨rfl, -⟩ := split
        cbv
      · obtain ⟨rfl, rfl, -⟩ := split
        cbv
      · obtain ⟨rfl, rfl, rfl, -⟩ := split
        cbv
      · simp at split
  refine ⟨sequenced, scheduled, ?_⟩
  refine ((reorder_least loosened).2.2 _ sequenced).resolve_left fun same => ?_
  rw [← same] at scheduled
  exact absurd scheduled (by decide)

end Schedule

end DeclOrder.Order
