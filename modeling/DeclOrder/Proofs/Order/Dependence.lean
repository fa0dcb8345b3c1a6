import DeclOrder.Proofs.Order.Front
import DeclOrder.Proofs.Order.Turns

/-!
# Order and dependence

When one declaration comes before another one, a strategy may still exchange them. It does not in
three cases: the first belongs to a front that refers to nothing behind itself; the second depends
on the first, and the strategy came to its end; or components are scheduled, and the second has to
wait for something that all that the first depends on stands before.
-/

namespace DeclOrder.Order

open scoped List

/-- The first name is the second, or it leads to the second along references. -/
def Depends (blocks : List Block) : String → String → Prop :=
  Relation.ReflTransGen fun user used =>
    ∃ block ∈ blocks, block.name = user ∧ used ∈ block.references

/-- The two names depend on each other. -/
def Entwined (blocks : List Block) (left right : String) : Prop :=
  Depends blocks left right ∧ Depends blocks right left

/-- The first member of the component of one name comes before all members of that of the other. -/
def Ahead (blocks : List Block) (left right : String) : Prop :=
  ∃ first, Entwined blocks left first ∧
    ∀ member, Entwined blocks right member → [first, member] <+ blocks.map (·.name)

/-- What keeps a name before another one that it came before. -/
inductive Secured (strategy : Strategy) (converged : Bool) (blocks : List Block)
    (base heir : String) : Prop where
  /-- The name is among the first blocks, which refer to nothing behind themselves. -/
  | front (count : Nat) (first : DependenciesFirst (blocks.take count))
      (among : base ∈ (blocks.take count).map (·.name))
  /-- The other one depends on it, and the run came to its end. -/
  | needed (depends : Depends blocks heir base) (settled : strategy = .window → converged = true)
  /-- All that it depends on is ahead of something that the other one depends on, where components
  are scheduled. -/
  | sooner (latest : String) (scheduled : strategy = .components)
      (depends : Depends blocks heir latest)
      (ahead : ∀ used, Depends blocks base used → Ahead blocks used latest)

variable {blocks : List Block}

/-- Dependence is the same in every order of the blocks. -/
theorem Depends.perm {ordered : List Block} (perm : ordered.Perm blocks) {user used : String}
    (depends : Depends blocks user used) : Depends ordered user used := by
  refine Relation.ReflTransGen.mono ?_ _ _ depends
  rintro user used ⟨block, member, named, refers⟩
  exact ⟨block, perm.mem_iff.mpr member, named, refers⟩

/-- A name among some that are closed under references depends on these only. -/
theorem Depends.mem_of_closed {names : List String}
    (closed : ∀ block ∈ blocks, block.name ∈ names → ∀ used ∈ block.references, used ∈ names)
    {user used : String} (start : user ∈ names) (depends : Depends blocks user used) :
    used ∈ names := by
  induction depends with
  | refl => exact start
  | tail _ reference ih =>
    obtain ⟨block, member, rfl, refers⟩ := reference
    exact closed block member ih _ refers

/-- One name comes before another one if the block at a smaller place has it. -/
theorem pair_sublist_names_iff {base heir : String} :
    [base, heir] <+ blocks.map (·.name) ↔
      ∃ left right : Fin blocks.length, left < right ∧
        (blocks.get left).name = base ∧ (blocks.get right).name = heir := by
  have names : blocks.map (·.name) =
      (List.finRange blocks.length).map fun node => (blocks.get node).name := by
    conv_lhs => rw [← List.map_get_finRange blocks, List.map_map]
    rfl
  rw [names]
  constructor
  · intro ordered
    obtain ⟨nodes, part, same⟩ := List.sublist_map_iff.mp ordered
    obtain ⟨left, rest, rfl, left_eq, rest_eq⟩ := List.map_eq_cons_iff.mp same.symm
    obtain ⟨right, last, rfl, right_eq, last_eq⟩ := List.map_eq_cons_iff.mp rest_eq
    obtain rfl := List.map_eq_nil_iff.mp last_eq
    have ascending := (List.pairwise_lt_finRange blocks.length).sublist part
    have less := (List.pairwise_cons.mp ascending).1 right List.mem_cons_self
    exact ⟨left, right, less, left_eq, right_eq⟩
  · rintro ⟨left, right, less, rfl, rfl⟩
    have ordered : [left, right] <+ List.finRange blocks.length := by
      refine pair_sublist_of_idxOf_lt (List.mem_finRange right) ?_
      rwa [List.idxOf_finRange, List.idxOf_finRange]
    exact ordered.map fun node => (blocks.get node).name

/-- Among distinct names, nodes with the same name are the same. -/
theorem node_unique (distinct : (blocks.map (·.name)).Nodup) {left right : Fin blocks.length}
    (same : (blocks.get left).name = (blocks.get right).name) : left = right := by
  have left_at : blocks[left.val]? = some (blocks.get left) := List.getElem?_eq_getElem left.isLt
  have right_at : blocks[right.val]? = some (blocks.get right) :=
    List.getElem?_eq_getElem right.isLt
  exact Fin.ext (place_unique distinct left_at right_at same)

/-- Among distinct names, the order of names is that of their nodes. -/
theorem pair_sublist_get_iff (distinct : (blocks.map (·.name)).Nodup)
    {left right : Fin blocks.length} :
    [(blocks.get left).name, (blocks.get right).name] <+ blocks.map (·.name) ↔ left < right := by
  rw [pair_sublist_names_iff]
  constructor
  · rintro ⟨first, second, less, left_eq, right_eq⟩
    rwa [node_unique distinct left_eq, node_unique distinct right_eq] at less
  · intro less
    exact ⟨left, right, less, rfl, rfl⟩

/-- A path of edges is a chain of references. -/
theorem depends_of_reaches {source target : Fin blocks.length}
    (path : (Digraph.ofBlocks blocks).Reaches source target) :
    Depends blocks (blocks.get source).name (blocks.get target).name := by
  induction path with
  | refl => exact Relation.ReflTransGen.refl
  | @tail before after _ edge ih =>
    exact ih.tail ⟨blocks.get before, List.get_mem blocks before, rfl, refers_of_edge edge⟩

/-- What resolved blocks depend on is declared, and a path of edges leads there. -/
theorem Resolved.exists_reaches (resolved : Resolved blocks) {source : Fin blocks.length}
    {used : String} (depends : Depends blocks (blocks.get source).name used) :
    ∃ target, (blocks.get target).name = used ∧
      (Digraph.ofBlocks blocks).Reaches source target := by
  induction depends with
  | refl => exact ⟨source, rfl, Digraph.Reaches.refl source⟩
  | tail _ reference ih =>
    obtain ⟨before, rfl, path⟩ := ih
    obtain ⟨block, member, named, refers⟩ := reference
    obtain ⟨node, rfl⟩ := List.get_of_mem member
    obtain rfl := node_unique resolved.distinct named
    obtain ⟨other, declared, rfl⟩ := List.mem_map.mp (resolved.declared _ member _ refers)
    obtain ⟨target, rfl⟩ := List.get_of_mem declared
    have edge : (Digraph.ofBlocks blocks).Edge node target :=
      edge_of_refers resolved.distinct refers
    exact ⟨target, rfl, path.trans (Digraph.Reaches.edge edge)⟩

/-- Among resolved blocks, chains of references are paths of edges. -/
theorem Resolved.depends_iff (resolved : Resolved blocks) {source target : Fin blocks.length} :
    Depends blocks (blocks.get source).name (blocks.get target).name ↔
      (Digraph.ofBlocks blocks).Reaches source target := by
  constructor
  · intro depends
    obtain ⟨other, named, path⟩ := resolved.exists_reaches depends
    rwa [node_unique resolved.distinct named] at path
  · exact depends_of_reaches

/-- What is ahead has the component with the smaller key. -/
theorem Resolved.key_lt_of_ahead (resolved : Resolved blocks) {used latest : Fin blocks.length}
    (ahead : Ahead blocks (blocks.get used).name (blocks.get latest).name) :
    Digraph.key (Digraph.componentOf (Digraph.ofBlocks blocks).components used) <
      Digraph.key (Digraph.componentOf (Digraph.ofBlocks blocks).components latest) := by
  obtain ⟨name, ⟨forth, back⟩, before⟩ := ahead
  obtain ⟨first, rfl, path⟩ := resolved.exists_reaches forth
  have joined : (Digraph.ofBlocks blocks).Mutual used first :=
    ⟨path, resolved.depends_iff.mp back⟩
  have inside := Digraph.mem_componentOf.mpr (Digraph.components_eq_iff.mpr joined.symm)
  refine Digraph.key_componentOf_lt inside fun node member => ?_
  have shared := Digraph.components_eq_iff.mp (Digraph.mem_componentOf.mp member)
  have entwined : Entwined blocks (blocks.get latest).name (blocks.get node).name :=
    ⟨depends_of_reaches shared.2, depends_of_reaches shared.1⟩
  exact (pair_sublist_get_iff resolved.distinct).mp (before _ entwined)

/-- Scheduling keeps a node before another one whose turn is not earlier. -/
theorem Schedule.pair_sublist_reorder {left right : Fin blocks.length} (less : left < right)
    (turns : (Digraph.ofBlocks blocks).turn left ≤ (Digraph.ofBlocks blocks).turn right) :
    [(blocks.get left).name, (blocks.get right).name] <+
      (Schedule.reorder blocks).blocks.map (·.name) := by
  have nodes := Digraph.pair_sublist_schedule less turns
  exact (nodes.map blocks.get).map Block.name

/-- Where dependencies come first, paths lead to nodes in front. -/
theorem DependenciesFirst.le_of_reaches (first : DependenciesFirst blocks)
    (distinct : (blocks.map (·.name)).Nodup) {source target : Fin blocks.length}
    (path : (Digraph.ofBlocks blocks).Reaches source target) : target ≤ source := by
  induction path with
  | refl => exact le_refl _
  | @tail before after _ edge ih =>
    have stands : blocks[before.val]? = some (blocks.get before) :=
      List.getElem?_eq_getElem before.isLt
    obtain ⟨earlier, other, less, found, same⟩ :=
      first before.val _ stands _ (refers_of_edge edge)
    have place_eq : earlier = after.val :=
      place_unique distinct found (List.getElem?_eq_getElem after.isLt) same
    have falls : after < before := Fin.lt_def.mpr (place_eq ▸ less)
    exact (le_of_lt falls).trans ih

/-- Where dependencies come first, what another name depends on comes before it. -/
theorem DependenciesFirst.pair_sublist (first : DependenciesFirst blocks)
    (resolved : Resolved blocks) {base heir : String} (different : base ≠ heir)
    (declared : heir ∈ blocks.map (·.name)) (depends : Depends blocks heir base) :
    [base, heir] <+ blocks.map (·.name) := by
  obtain ⟨block, member, rfl⟩ := List.mem_map.mp declared
  obtain ⟨user, rfl⟩ := List.get_of_mem member
  obtain ⟨used, rfl, path⟩ := resolved.exists_reaches depends
  have le := first.le_of_reaches resolved.distinct path
  have apart : used ≠ user := fun same => different (by rw [same])
  exact (pair_sublist_get_iff resolved.distinct).mpr (lt_of_le_of_ne le apart)

/-- A front that stays keeps its names before those behind it. -/
theorem pair_sublist_of_front {ordered : List Block} {count : Nat} {base heir : String}
    (distinct : (blocks.map (·.name)).Nodup) (perm : ordered.Perm blocks)
    (front : blocks.take count <+: ordered) (among : base ∈ (blocks.take count).map (·.name))
    (before : [base, heir] <+ blocks.map (·.name)) : [base, heir] <+ ordered.map (·.name) := by
  obtain ⟨behind, rfl⟩ := front
  have listed : heir ∈ (blocks.take count ++ behind).map (·.name) :=
    (perm.map _).mem_iff.mpr (before.subset (List.mem_cons_of_mem base List.mem_cons_self))
  rw [List.map_append] at listed ⊢
  by_cases both : heir ∈ (blocks.take count).map (·.name)
  · have less := idxOf_lt_of_pair_sublist distinct before
    rw [← List.take_append_drop count blocks, List.map_append, List.idxOf_append_of_mem among,
      List.idxOf_append_of_mem both] at less
    exact (pair_sublist_of_idxOf_lt both less).trans (List.sublist_append_left _ _)
  · have later := (List.mem_append.mp listed).resolve_left both
    exact (List.singleton_sublist.mpr among).append (List.singleton_sublist.mpr later)

/-- Scheduling keeps what is secured before what it came before. -/
theorem Secured.pair_sublist_schedule {converged : Bool} {base heir : String}
    (secured : Secured .components converged blocks base heir) (resolved : Resolved blocks)
    (before : [base, heir] <+ blocks.map (·.name)) :
    [base, heir] <+ (Schedule.reorder blocks).blocks.map (·.name) := by
  cases secured with
  | front count first among =>
    exact pair_sublist_of_front resolved.distinct (Schedule.reorder_perm blocks)
      (Schedule.take_prefix_reorder resolved.distinct first) among before
  | needed depends _ =>
    obtain ⟨left, right, less, rfl, rfl⟩ := pair_sublist_names_iff.mp before
    have path := resolved.depends_iff.mp depends
    exact Schedule.pair_sublist_reorder less (Digraph.turn_le_of_reaches path)
  | sooner latest _ depends ahead =>
    obtain ⟨left, right, less, rfl, rfl⟩ := pair_sublist_names_iff.mp before
    obtain ⟨last, rfl, path⟩ := resolved.exists_reaches depends
    have turns : (Digraph.ofBlocks blocks).turn left < (Digraph.ofBlocks blocks).turn right := by
      refine Digraph.turn_lt_of_key_lt path fun used reached => ?_
      exact resolved.key_lt_of_ahead (ahead _ (depends_of_reaches reached))
    exact Schedule.pair_sublist_reorder less (Nat.le_of_lt turns)

/-- Local repair keeps what is secured before what it came before. -/
theorem Secured.pair_sublist_repair {cap : Nat} {base heir : String}
    (secured : Secured .window (Repair.reorder cap blocks).converged blocks base heir)
    (resolved : Resolved blocks) (before : [base, heir] <+ blocks.map (·.name)) :
    [base, heir] <+ (Repair.reorder cap blocks).blocks.map (·.name) := by
  have perm := Repair.reorder_perm cap blocks
  cases secured with
  | front count first among =>
    have kept := Repair.take_repairFrom 0 cap resolved first
    have front : blocks.take count <+: (Repair.reorder cap blocks).blocks :=
      kept ▸ List.take_prefix count _
    exact pair_sublist_of_front resolved.distinct perm front among before
  | needed depends settled =>
    have nothing := (Repair.repairFrom_converged_iff 0 cap blocks).mp (settled rfl)
    have first : DependenciesFirst (Repair.reorder cap blocks).blocks :=
      (Repair.step?_eq_none_iff (resolved.perm perm)).mp nothing
    have different : base ≠ heir := by
      rintro rfl
      exact absurd (idxOf_lt_of_pair_sublist resolved.distinct before) (Nat.lt_irrefl _)
    have declared : heir ∈ (Repair.reorder cap blocks).blocks.map (·.name) :=
      (perm.map _).mem_iff.mpr (before.subset (List.mem_cons_of_mem base List.mem_cons_self))
    exact first.pair_sublist (resolved.perm perm) different declared (depends.perm perm)
  | sooner latest scheduled _ _ => exact absurd scheduled (by decide)

/-- Both strategies keep what is secured before what it came before. -/
theorem Secured.pair_sublist_reorder {strategy : Strategy} {cap : Nat} {base heir : String}
    (secured : Secured strategy (strategy.reorder cap blocks).converged blocks base heir)
    (resolved : Resolved blocks) (before : [base, heir] <+ blocks.map (·.name)) :
    [base, heir] <+ (strategy.reorder cap blocks).blocks.map (·.name) := by
  cases strategy with
  | components => exact secured.pair_sublist_schedule resolved before
  | window => exact secured.pair_sublist_repair resolved before

end DeclOrder.Order
