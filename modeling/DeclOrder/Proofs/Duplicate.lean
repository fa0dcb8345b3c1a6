import DeclOrder.Duplicate
import Mathlib.Data.List.Nodup

/-!
# Blocks without duplicates

Among distinct names, which blocks are duplicates does not depend on the order of the blocks. So
blocks that collapsing leaves without taking out a duplicate are left as they are in every order.
-/

namespace DeclOrder.Duplicate

/-- The blocks that are not taken out as built-in. -/
def withoutBuiltin (blocks : List Block) (builtin : Option String) : List Block :=
  blocks.filter fun block => !(builtin == some block.name)

/-- Without a built-in name no block is taken out as built-in. -/
@[simp] theorem withoutBuiltin_none (blocks : List Block) : withoutBuiltin blocks none = blocks :=
  List.filter_eq_self.mpr fun _ _ => rfl

/-- The blocks that are taken out neither as built-in nor as duplicates. -/
def surviving (blocks : List Block) (builtin : Option String) : List Block :=
  (withoutBuiltin blocks builtin).filter
    (decide <| ·.name ∉ duplicates (withoutBuiltin blocks builtin))

/-- The block with the duplicates renamed in its lines. -/
def renamed (collapsed : List Duplicate) (block : Block) : Block :=
  { block with lines := block.lines.map (renameLine collapsed) }

/-- Renaming keeps the number of lines. -/
theorem length_lines_renamed (collapsed : List Duplicate) (block : Block) :
    (renamed collapsed block).lines.length = block.lines.length :=
  List.length_map _

/-- The body is renamed line by line. -/
theorem body_renamed (collapsed : List Duplicate) (block : Block) :
    (renamed collapsed block).body = block.body.map (renameLine collapsed) :=
  List.map_drop.symm

/-- Collapsing leaves the surviving blocks with the duplicates renamed. -/
theorem blocks_collapse_eq (blocks : List Block) (builtin : Option String) :
    (collapse blocks builtin).blocks =
      (surviving blocks builtin).map (renamed (collapse blocks builtin).collapsed) := rfl

/-- The names taken out are those of the duplicates. -/
theorem map_name_collapsed (blocks : List Block) (builtin : Option String) :
    (collapse blocks builtin).collapsed.map (·.name) =
      (duplicates (withoutBuiltin blocks builtin)).names := by
  have shape : (collapse blocks builtin).collapsed.map (·.name) =
      ((duplicates (withoutBuiltin blocks builtin)).names.map fun name =>
        (⟨name, survivor (duplicates (withoutBuiltin blocks builtin)) name⟩ : Duplicate)).map
          fun entry => entry.name := rfl
  rw [shape, List.map_map]
  exact List.map_id _

/-- The blocks that stay have the names that are not taken out. -/
theorem map_name_collapse (blocks : List Block) (builtin : Option String) :
    (collapse blocks builtin).blocks.map (·.name) =
      ((withoutBuiltin blocks builtin).map (·.name)).filter
        (decide <| · ∉ (collapse blocks builtin).collapsed.map (·.name)) := by
  rw [blocks_collapse_eq, surviving, List.map_map, map_name_collapsed, List.filter_map]
  rfl

/-- A name is that of a duplicate if a duplicate has it. -/
theorem mem_duplicates_iff {blocks : List Block} {name : String} :
    name ∈ duplicates blocks ↔
      ∃ block ∈ blocks, isDuplicate blocks block = true ∧ block.name = name := by
  rw [duplicates, NameSet.mem_ofList, List.mem_map]
  simp only [List.mem_filter, and_assoc]

/-- The last block of a name is a block of that name. -/
theorem of_lastNamed? {blocks : List Block} {name : String} {block : Block}
    (last : lastNamed? blocks name = some block) : block ∈ blocks ∧ block.name = name := by
  have member := List.mem_reverse.mp (List.mem_of_find?_eq_some last)
  have same := List.find?_some last
  exact ⟨member, beq_iff_eq.mp same⟩

/-- A duplicate has the body of the last block named by its name without the digit. -/
theorem isDuplicate_iff {blocks : List Block} {block : Block} :
    isDuplicate blocks block = true ↔
      ∃ name base, base? block.name = some name ∧ lastNamed? blocks name = some base ∧
        base.lines.length = block.lines.length ∧ base.body = block.body := by
  rw [isDuplicate]
  constructor
  · intro duplicate
    split at duplicate
    · next base found =>
      obtain ⟨name, stripped, last⟩ := Option.bind_eq_some_iff.mp found
      rw [Bool.and_eq_true, beq_iff_eq, beq_iff_eq] at duplicate
      exact ⟨name, base, stripped, last, duplicate⟩
    · exact absurd duplicate Bool.false_ne_true
  · rintro ⟨name, base, stripped, last, same_length, same_body⟩
    rw [stripped, Option.bind_some, last]
    exact Bool.and_eq_true_iff.mpr ⟨beq_iff_eq.mpr same_length, beq_iff_eq.mpr same_body⟩

/-- Among distinct names, the last block of a name is the only one. -/
theorem lastNamed?_eq_some_iff {blocks : List Block} (distinct : (blocks.map (·.name)).Nodup)
    {name : String} {block : Block} :
    lastNamed? blocks name = some block ↔ block ∈ blocks ∧ block.name = name := by
  have unique {other : Block} (member : block ∈ blocks) (other_member : other ∈ blocks)
      (same : other.name = block.name) : other = block :=
    List.inj_on_of_nodup_map distinct other_member member same
  refine ⟨of_lastNamed?, ?_⟩
  rintro ⟨member, rfl⟩
  have present : (blocks.reverse.find? (·.name == block.name)).isSome := by
    rw [List.find?_isSome]
    exact ⟨block, List.mem_reverse.mpr member, beq_self_eq_true _⟩
  obtain ⟨other, found⟩ := Option.isSome_iff_exists.mp present
  obtain ⟨other_member, same⟩ := of_lastNamed? found
  rw [lastNamed?, found, unique member other_member same]

/-- Among distinct names, which blocks are duplicates does not depend on the order. -/
theorem isDuplicate_perm {left right : List Block} (perm : left.Perm right)
    (distinct : (right.map (·.name)).Nodup) (block : Block) :
    isDuplicate left block = isDuplicate right block := by
  have distinct_left : (left.map (·.name)).Nodup := (perm.map (·.name)).nodup_iff.mpr distinct
  have same : lastNamed? left = lastNamed? right := by
    funext name
    refine Option.ext fun other => ?_
    rw [lastNamed?_eq_some_iff distinct_left, lastNamed?_eq_some_iff distinct, perm.mem_iff]
  rw [isDuplicate, isDuplicate, same]

/-- No duplicate is taken out exactly when no block that stays is one. -/
theorem collapsed_eq_nil_iff {blocks : List Block} {builtin : Option String} :
    (collapse blocks builtin).collapsed = [] ↔
      ∀ block ∈ withoutBuiltin blocks builtin,
        isDuplicate (withoutBuiltin blocks builtin) block = false := by
  have listed : (collapse blocks builtin).collapsed = [] ↔
      (duplicates (withoutBuiltin blocks builtin)).names = [] := List.map_eq_nil_iff
  rw [listed, List.eq_nil_iff_forall_not_mem]
  have member {name : String} : name ∈ (duplicates (withoutBuiltin blocks builtin)).names ↔
      ∃ block ∈ withoutBuiltin blocks builtin,
        isDuplicate (withoutBuiltin blocks builtin) block = true ∧ block.name = name :=
    mem_duplicates_iff
  constructor
  · intro none_listed block known
    apply Bool.eq_false_iff.mpr
    intro duplicate
    exact none_listed block.name (member.mpr ⟨block, known, duplicate, rfl⟩)
  · intro none_duplicate name listed
    obtain ⟨block, known, duplicate, -⟩ := member.mp listed
    exact Bool.false_ne_true ((none_duplicate block known).symm.trans duplicate)

/-- Without duplicates, the blocks that are not built-in stay as they are. -/
theorem blocks_collapse {blocks : List Block} {builtin : Option String}
    (uncollapsed : (collapse blocks builtin).collapsed = []) :
    (collapse blocks builtin).blocks = withoutBuiltin blocks builtin := by
  have empty : (duplicates (withoutBuiltin blocks builtin)).names = [] :=
    List.map_eq_nil_iff.mp uncollapsed
  have all : surviving blocks builtin = withoutBuiltin blocks builtin := by
    apply List.filter_eq_self.mpr
    intro block _
    simp [NameSet.mem_iff, empty]
  have unchanged (block : Block) : renamed [] block = block := by
    have same : block.lines.map (renameLine []) = block.lines := List.map_id _
    rw [renamed, same]
  rw [blocks_collapse_eq, uncollapsed, all]
  exact (List.map_congr_left fun block _ => unchanged block).trans (List.map_id _)

/-- Blocks that collapsing leaves without taking out a duplicate are left as they are in every
order, if their names are distinct. -/
theorem collapse_perm {blocks ordered : List Block} {builtin : Option String}
    (uncollapsed : (collapse blocks builtin).collapsed = [])
    (perm : ordered.Perm (collapse blocks builtin).blocks)
    (distinct : (ordered.map (·.name)).Nodup) :
    (collapse ordered builtin).collapsed = [] ∧ (collapse ordered builtin).blocks = ordered := by
  rw [blocks_collapse uncollapsed] at perm
  have kept : withoutBuiltin ordered builtin = ordered := by
    apply List.filter_eq_self.mpr
    intro block member
    exact (List.mem_filter.mp (perm.mem_iff.mp member)).2
  have distinct_kept := (perm.map (·.name)).nodup_iff.mp distinct
  have still : (collapse ordered builtin).collapsed = [] := by
    apply collapsed_eq_nil_iff.mpr
    intro block member
    rw [kept] at member ⊢
    rw [isDuplicate_perm perm distinct_kept]
    exact collapsed_eq_nil_iff.mp uncollapsed block (perm.mem_iff.mp member)
  exact ⟨still, (blocks_collapse still).trans kept⟩

end DeclOrder.Duplicate
