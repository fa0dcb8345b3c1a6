import DeclOrder.Proofs.Duplicate
import Mathlib.Logic.Function.Iterate

/-!
# Collapsing what was collapsed

Duplicates are found before they are renamed, and renaming changes the bodies that decide what a
duplicate is. So one run need not be enough: a second run finds something exactly if renaming has
made the bodies of two blocks the same whose names differ by a digit. Each run that takes something
out leaves fewer blocks, so that as many runs as there are blocks are always enough.
-/

namespace DeclOrder.Duplicate

/-- Collapsing takes nothing out of the blocks and changes nothing in them. -/
def Settled (blocks : List Block) (builtin : Option String) : Prop :=
  (collapse blocks builtin).collapsed = [] ∧ (collapse blocks builtin).dropped = [] ∧
    (collapse blocks builtin).blocks = blocks

/-- The block has the name of the other with one digit appended, and their bodies are the same once
the duplicates are renamed in them. -/
def Merges (collapsed : List Duplicate) (block base : Block) : Prop :=
  base? block.name = some base.name ∧ base.lines.length = block.lines.length ∧
    (renamed collapsed base).body = (renamed collapsed block).body

/-- Whether renaming makes two bodies the same can be computed. -/
instance (collapsed : List Duplicate) (block base : Block) :
    Decidable (Merges collapsed block base) := inferInstanceAs (Decidable (_ ∧ _ ∧ _))

section Runs

variable {blocks : List Block} {builtin : Option String}

/-- No block is taken out as built-in exactly if none has the built-in name. -/
theorem dropped_eq_nil_iff :
    (collapse blocks builtin).dropped = [] ↔ withoutBuiltin blocks builtin = blocks := by
  have listed : (collapse blocks builtin).dropped = [] ↔
      blocks.filter (fun block => builtin == some block.name) = [] := List.map_eq_nil_iff
  rw [listed, List.filter_eq_nil_iff, withoutBuiltin, List.filter_eq_self]
  simp only [Bool.not_eq_true, Bool.not_eq_true']

/-- Collapsing changes nothing exactly if it takes nothing out. -/
theorem settled_iff :
    Settled blocks builtin ↔
      (collapse blocks builtin).collapsed = [] ∧ (collapse blocks builtin).dropped = [] := by
  refine ⟨fun settled => ⟨settled.1, settled.2.1⟩, fun ⟨uncollapsed, undropped⟩ => ?_⟩
  exact ⟨uncollapsed, undropped,
    (blocks_collapse uncollapsed).trans (dropped_eq_nil_iff.mp undropped)⟩

/-- What collapsing leaves has no block of the built-in name. -/
theorem dropped_collapse_collapse :
    (collapse (collapse blocks builtin).blocks builtin).dropped = [] := by
  apply dropped_eq_nil_iff.mpr
  apply List.filter_eq_self.mpr
  intro block left
  rw [blocks_collapse_eq] at left
  obtain ⟨original, stays, rfl⟩ := List.mem_map.mp left
  exact (List.mem_filter.mp (List.mem_of_mem_filter stays)).2

/-- Collapsing leaves the blocks as they are, or fewer of them. -/
theorem settled_or_length_collapse_lt :
    Settled blocks builtin ∨ (collapse blocks builtin).blocks.length < blocks.length := by
  have length_eq : (collapse blocks builtin).blocks.length = (surviving blocks builtin).length := by
    rw [blocks_collapse_eq, List.length_map]
  have inner : (surviving blocks builtin).Sublist (withoutBuiltin blocks builtin) :=
    List.filter_sublist
  have outer : (withoutBuiltin blocks builtin).Sublist blocks := List.filter_sublist
  rw [length_eq]
  rcases Nat.lt_or_eq_of_le (inner.trans outer).length_le with fewer | same_length
  · exact .inr fewer
  · have none_builtin : withoutBuiltin blocks builtin = blocks :=
      outer.eq_of_length_le (same_length ▸ inner.length_le)
    have all_stay : surviving blocks builtin = withoutBuiltin blocks builtin :=
      inner.eq_of_length_le (same_length ▸ outer.length_le)
    refine .inl (settled_iff.mpr ⟨collapsed_eq_nil_iff.mpr fun block member => ?_,
      dropped_eq_nil_iff.mpr none_builtin⟩)
    have stays : block ∈ surviving blocks builtin := all_stay.symm ▸ member
    have kept := of_decide_eq_true (List.mem_filter.mp stays).2
    apply Bool.eq_false_iff.mpr
    intro duplicate
    exact kept (mem_duplicates_iff.mpr ⟨block, member, duplicate, rfl⟩)

/-- As many runs as there are blocks are enough to settle them. -/
theorem exists_settled_iterate :
    ∃ runs ≤ blocks.length,
      Settled ((fun left => (collapse left builtin).blocks)^[runs] blocks) builtin := by
  induction size : blocks.length using Nat.strongRecOn generalizing blocks with
  | _ size ih =>
    by_cases settled : Settled blocks builtin
    · exact ⟨0, Nat.zero_le _, settled⟩
    · have fewer := settled_or_length_collapse_lt.resolve_left settled
      obtain ⟨runs, few, settles⟩ := ih _ (size ▸ fewer) rfl
      refine ⟨runs + 1, by omega, ?_⟩
      rw [Function.iterate_succ_apply]
      exact settles

/-- After a first run, a block is a duplicate exactly if renaming has made its body that of the
block named by its name without the digit. -/
theorem isDuplicate_renamed (distinct : (blocks.map (·.name)).Nodup) {block : Block} :
    isDuplicate (collapse blocks builtin).blocks (renamed (collapse blocks builtin).collapsed block) =
        true ↔
      ∃ base ∈ surviving blocks builtin, Merges (collapse blocks builtin).collapsed block base := by
  have distinct_left : ((collapse blocks builtin).blocks.map (·.name)).Nodup := by
    rw [map_name_collapse]
    exact (distinct.sublist (List.filter_sublist.map Block.name)).filter _
  rw [isDuplicate_iff]
  constructor
  · rintro ⟨name, left, stripped, last, same_length, same_body⟩
    obtain ⟨member, rfl⟩ := of_lastNamed? last
    rw [blocks_collapse_eq] at member
    obtain ⟨base, stays, rfl⟩ := List.mem_map.mp member
    rw [length_lines_renamed, length_lines_renamed] at same_length
    exact ⟨base, stays, stripped, same_length, same_body⟩
  · rintro ⟨base, stays, stripped, same_length, same_body⟩
    have left : renamed (collapse blocks builtin).collapsed base ∈ (collapse blocks builtin).blocks :=
      List.mem_map_of_mem stays
    have last := (lastNamed?_eq_some_iff distinct_left).mpr ⟨left, rfl⟩
    refine ⟨base.name, _, stripped, last, ?_, same_body⟩
    rw [length_lines_renamed, length_lines_renamed, same_length]

end Runs

/-- A second run drops nothing. It takes nothing out and changes nothing exactly if the first run
has made no two bodies the same whose blocks both stay and differ in name by one digit at the end.
In any case some number of runs, at most one for each block, leaves nothing to take out. -/
theorem settled_collapse_iff {blocks : List Block} (distinct : (blocks.map (·.name)).Nodup)
    (builtin : Option String) :
    (collapse (collapse blocks builtin).blocks builtin).dropped = [] ∧
      (Settled (collapse blocks builtin).blocks builtin ↔
        ∀ block ∈ surviving blocks builtin, ∀ base ∈ surviving blocks builtin,
          ¬ Merges (collapse blocks builtin).collapsed block base) ∧
      ∃ runs ≤ blocks.length,
        Settled ((fun left => (collapse left builtin).blocks)^[runs] blocks) builtin := by
  refine ⟨dropped_collapse_collapse, ?_, exists_settled_iterate⟩
  have left_eq : withoutBuiltin (collapse blocks builtin).blocks builtin =
      (collapse blocks builtin).blocks := dropped_eq_nil_iff.mp dropped_collapse_collapse
  rw [settled_iff, and_iff_left dropped_collapse_collapse, collapsed_eq_nil_iff, left_eq]
  constructor
  · intro no_duplicate block stays base base_stays merges
    have left : renamed (collapse blocks builtin).collapsed block ∈ (collapse blocks builtin).blocks :=
      List.mem_map_of_mem stays
    have duplicate := (isDuplicate_renamed distinct).mpr ⟨base, base_stays, merges⟩
    exact Bool.false_ne_true ((no_duplicate _ left).symm.trans duplicate)
  · intro none_merge left left_member
    rw [blocks_collapse_eq] at left_member
    obtain ⟨block, stays, rfl⟩ := List.mem_map.mp left_member
    apply Bool.eq_false_iff.mpr
    intro duplicate
    obtain ⟨base, base_stays, merges⟩ := (isDuplicate_renamed distinct).mp duplicate
    exact none_merge block stays base base_stays merges

/-- Two declarations of one shape, and two more that still differ when the second is renamed. -/
def detached : List Block :=
  [{ name := "Prop", lines := ["class Prop(Base):", "    name: str"] },
   { name := "Prop1", lines := ["class Prop1(Base):", "    name: str"] },
   { name := "Part", lines := ["class Part(Base):", "    prop: Prop1"] },
   { name := "Part1", lines := ["class Part1(Base):", "    prop: Part"] }]

/-- One run settles the detached declarations, although it renames one that another mentions. -/
theorem settled_collapse_detached :
    (detached.map (·.name)).Nodup ∧
      (collapse detached none).collapsed = [⟨"Prop1", "Prop"⟩] ∧
      Settled (collapse detached none).blocks none := by
  have distinct : (detached.map (·.name)).Nodup := by decide
  obtain ⟨-, settles, -⟩ := settled_collapse_iff distinct none
  exact ⟨distinct, by decide +kernel, settles.mpr (by decide +kernel)⟩

/-- Two declarations of one shape, and two more that differ in which of the first two they mention. -/
def paired : List Block :=
  [{ name := "Prop", lines := ["class Prop(Base):", "    name: str"] },
   { name := "Prop1", lines := ["class Prop1(Base):", "    name: str"] },
   { name := "Part", lines := ["class Part(Base):", "    prop: Prop"] },
   { name := "Part1", lines := ["class Part1(Base):", "    prop: Prop1"] }]

/-- One run does not settle the paired declarations: it takes out the second, which makes the last
a duplicate of the third, and the second run takes this one out as well. -/
theorem not_settled_collapse_paired :
    (paired.map (·.name)).Nodup ∧ (∀ block ∈ paired, Text.isWord block.name = true) ∧
      (collapse paired none).collapsed = [⟨"Prop1", "Prop"⟩] ∧
      (collapse (collapse paired none).blocks none).collapsed = [⟨"Part1", "Part"⟩] ∧
      ∃ block ∈ (collapse paired none).blocks, ∃ base ∈ (collapse paired none).blocks,
        base? block.name = some base.name ∧ base.body = block.body := by
  refine ⟨by decide, by decide, by decide +kernel, by decide +kernel, ?_⟩
  decide +kernel

end DeclOrder.Duplicate
