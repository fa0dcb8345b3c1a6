import DeclOrder.Proofs.Source
import DeclOrder.Resolution

/-!
# References in every order

What resolution finds out about a block depends on the block's lines and on the set of declared
names, and a set of names is the same for every order of a list. So the references of resolved
blocks are found again in any order of them.
-/

namespace DeclOrder

/-- Sets with the same members are equal. -/
theorem NameSet.ext_mem {left right : NameSet} (same : ∀ name, name ∈ left ↔ name ∈ right) :
    left = right := by
  obtain ⟨lefts, left_ascending⟩ := left
  obtain ⟨rights, right_ascending⟩ := right
  have nodup {names : List String} (ascending : names.Pairwise (· < ·)) : names.Nodup :=
    ascending.imp String.ne_of_lt
  have perm : lefts.Perm rights :=
    (List.perm_ext_iff_of_nodup (nodup left_ascending) (nodup right_ascending)).mpr same
  have equal : lefts = rights :=
    perm.eq_of_pairwise (fun _ _ _ _ less greater => absurd less (String.lt_asymm greater))
      left_ascending right_ascending
  subst equal
  rfl

/-- The set of a list does not depend on its order. -/
theorem NameSet.ofList_perm {left right : List String} (perm : left.Perm right) :
    NameSet.ofList left = NameSet.ofList right :=
  NameSet.ext_mem fun name => by rw [mem_ofList, mem_ofList, perm.mem_iff]

namespace Resolution

/-- A block with what resolution finds out about it among declared names. -/
def annotated (declared : NameSet) (block : Block) : Block :=
  { block with
    mentions := Mention.ofLines block.body
    refersToSelf := decide (block.name ∈ Mention.ofLines block.body)
    references := (Mention.ofLines block.body).filter fun name =>
      decide (name ≠ block.name) && decide (name ∈ declared) }

/-- The references of a block are the other declared names that its body mentions. -/
theorem mem_references_annotated {declared : NameSet} {block : Block} {name : String} :
    name ∈ (annotated declared block).references ↔
      name ∈ Mention.ofLines block.body ∧ name ≠ block.name ∧ name ∈ declared := by
  rw [annotated, NameSet.mem_filter, Bool.and_eq_true, decide_eq_true_eq, decide_eq_true_eq]

/-- A block refers to itself if its body mentions its name. -/
theorem refersToSelf_annotated {declared : NameSet} {block : Block} :
    (annotated declared block).refersToSelf = true ↔ block.name ∈ Mention.ofLines block.body :=
  decide_eq_true_iff

/-- Resolution goes block by block once the declared names are known. -/
theorem annotate_eq (blocks : List Block) :
    annotate blocks = blocks.map (annotated (NameSet.ofList (blocks.map (·.name)))) := by
  simp only [annotate, resolve, List.map_map, Function.comp_def]
  rfl

/-- Resolution keeps names and lines. -/
theorem map_bare_annotate (blocks : List Block) :
    (annotate blocks).map Block.bare = blocks.map Block.bare := by
  rw [annotate_eq, List.map_map]
  rfl

/-- Resolution keeps the names. -/
theorem map_name_annotate (blocks : List Block) :
    (annotate blocks).map (·.name) = blocks.map (·.name) := by
  rw [annotate_eq, List.map_map]
  rfl

/-- In any order of resolved blocks, their references are found again. -/
theorem annotate_bare {blocks ordered : List Block} (perm : ordered.Perm (annotate blocks)) :
    annotate (ordered.map Block.bare) = ordered := by
  have names : NameSet.ofList ((ordered.map Block.bare).map (·.name)) =
      NameSet.ofList (blocks.map (·.name)) := by
    refine NameSet.ofList_perm ?_
    rw [← map_name_annotate blocks, List.map_map]
    exact perm.map (·.name)
  have found : ∀ block ∈ ordered,
      annotated (NameSet.ofList (blocks.map (·.name))) block.bare = block := by
    intro block member
    have resolved := perm.mem_iff.mp member
    rw [annotate_eq] at resolved
    obtain ⟨original, -, rfl⟩ := List.mem_map.mp resolved
    rfl
  rw [annotate_eq, names, List.map_map]
  exact (List.map_congr_left found).trans (List.map_id ordered)

end Resolution

end DeclOrder
