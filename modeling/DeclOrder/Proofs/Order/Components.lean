import DeclOrder.Proofs.Order.Search

/-!
# The components found by the search are the strongly connected ones

The search keeps what holds along its path until the path is empty, and then so is the stack: every
node has a component. Closed components lead to components closed before them or at the same time
only, so two nodes share a component exactly when each reaches the other.
-/

namespace DeclOrder.Order

namespace Search

variable {size : Nat} {graph : Digraph size} {search : Search size}

/-- Going on with the search along a path until its nodes are left leaves a search with nothing on
the stack. -/
theorem Along.explore {path : List (Frame size)} (along : Along graph search path) :
    Along graph (search.explore graph path) [] := by
  fun_induction Search.explore graph search path with
  | case1 search => exact along
  | case2 search node path ih => exact ih along.leave
  | case3 search node target pending path new ih => exact ih (along.descend new)
  | case4 search node target pending path number seen ih => exact ih (along.meet seen)

/-- Exploring keeps the nodes discovered. -/
theorem discovery_explore {path : List (Frame size)} {node : Fin size}
    (known : search.discovery.entry node ≠ none) :
    (search.explore graph path).discovery.entry node ≠ none := by
  fun_induction Search.explore graph search path with
  | case1 search => exact known
  | case2 search node path ih => exact ih (by rwa [discovery_leave])
  | case3 search node target pending path new ih =>
    refine ih ?_
    rw [discovery_enter]
    split
    · exact Option.some_ne_none _
    · exact known
  | case4 search node target pending path number seen ih => exact ih (by rwa [discovery_meet])

/-- Visiting a root keeps a search with nothing on the stack so. -/
theorem Along.visit (along : Along graph search []) (root : Fin size) :
    Along graph (search.visit graph root) [] := by
  unfold Search.visit
  split
  · next new =>
    exact (along.enter (Option.isNone_iff_eq_none.mp new) (by simp)).explore
  · exact along

/-- Visiting a root discovers it and keeps the nodes discovered. -/
theorem discovery_visit {root node : Fin size}
    (known : search.discovery.entry node ≠ none ∨ node = root) :
    (search.visit graph root).discovery.entry node ≠ none := by
  unfold visit
  split
  · next new =>
    refine discovery_explore ?_
    rw [discovery_enter]
    split
    · exact Option.some_ne_none _
    · next different => exact known.resolve_right different
  · next seen =>
    rcases known with known | rfl
    · exact known
    · exact fun new => seen (Option.isNone_iff_eq_none.mpr new)

/-- Nothing is known of a search that has not begun. -/
theorem Along.start (graph : Digraph size) : Along graph ({} : Search size) [] := by
  refine ⟨?_, .nil⟩
  constructor <;> simp

/-- Visiting some roots discovers them, with nothing left on the stack. -/
theorem Along.visits (along : Along graph search []) (roots : List (Fin size)) :
    Along graph (roots.foldl (Search.visit graph) search) [] ∧
      ∀ node, search.discovery.entry node ≠ none ∨ node ∈ roots →
        (roots.foldl (Search.visit graph) search).discovery.entry node ≠ none := by
  induction roots generalizing search with
  | nil => exact ⟨along, fun node known => known.resolve_right List.not_mem_nil⟩
  | cons root roots ih =>
    obtain ⟨done, known⟩ := ih (along.visit root)
    refine ⟨done, fun node before => known node ?_⟩
    rcases before with before | member
    · exact .inl (discovery_visit (.inl before))
    · rcases List.mem_cons.mp member with same | later
      · exact .inl (discovery_visit (.inr same))
      · exact .inr later

/-- The search ends sound, with every node in a component. -/
theorem sound_run (graph : Digraph size) :
    Sound graph (run graph) ∧ ∀ node, ∃ id, (run graph).component.entry node = some id := by
  obtain ⟨along, known⟩ := (Along.start graph).visits (List.finRange size)
  refine ⟨along.sound, fun node => Option.ne_none_iff_exists'.mp fun isOpen => ?_⟩
  have onStack := (along.sound.mem_stack node).mpr
    ⟨known node (.inr (List.mem_finRange node)), isOpen⟩
  have empty := along.stretches
  generalize (List.foldl (Search.visit graph) {} (List.finRange size)).stack = stack
    at empty onStack
  cases empty
  exact List.not_mem_nil onStack

end Search

namespace Digraph

variable {size : Nat} {graph : Digraph size}

/-- The component of a node is that which the search closed it in. -/
theorem component_run (graph : Digraph size) (node : Fin size) :
    (Search.run graph).component.entry node = some (graph.components.entry node) := by
  obtain ⟨id, closed⟩ := (Search.sound_run graph).2 node
  have entry_eq : graph.components.entry node = id := by
    rw [Table.entry_eq_getElem] at closed ⊢
    simp [Digraph.components, closed]
  rw [closed, entry_eq]

/-- Edges lead to components with the same or a smaller number. -/
theorem components_le_of_edge {source target : Fin size} (edge : graph.Edge source target) :
    graph.components.entry target ≤ graph.components.entry source := by
  obtain ⟨lower, le, closed⟩ :=
    (Search.sound_run graph).1.descends source target _ (graph.component_run source) edge
  rw [graph.component_run target] at closed
  exact (Option.some.inj closed).trans_le le

/-- Paths lead to components with the same or a smaller number. -/
theorem components_le_of_reaches {source target : Fin size} (path : graph.Reaches source target) :
    graph.components.entry target ≤ graph.components.entry source := by
  induction path with
  | refl => exact Nat.le_refl _
  | tail _ edge ih => exact (components_le_of_edge edge).trans ih

/-- Two nodes share a component exactly when each reaches the other. -/
theorem components_eq_iff {left right : Fin size} :
    graph.components.entry left = graph.components.entry right ↔ graph.Mutual left right := by
  constructor
  · intro same
    exact (Search.sound_run graph).1.joined left right _ (graph.component_run left)
      (same ▸ graph.component_run right)
  · rintro ⟨forth, back⟩
    exact Nat.le_antisymm (components_le_of_reaches back) (components_le_of_reaches forth)

/-- An edge out of a component leads to one with a smaller number. -/
theorem components_lt_of_edge {source target : Fin size} (edge : graph.Edge source target)
    (apart : ¬ graph.Mutual source target) :
    graph.components.entry target < graph.components.entry source := by
  refine Nat.lt_of_le_of_ne (components_le_of_edge edge) fun same => ?_
  exact apart (components_eq_iff.mp same.symm)

end Digraph

end DeclOrder.Order
