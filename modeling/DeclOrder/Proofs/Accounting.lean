import DeclOrder.Proofs.FixedPoint
import DeclOrder.Proofs.Preservation
import DeclOrder.Proofs.Removal

/-!
# The summary accounts for the blocks

What a summary says is gathered at several stages. Where the declared names are distinct, it fits
together: each name is that of a block written, of one dropped as built-in, or of a duplicate, and
the moves name the blocks that the strategy put in another place, so that they can be put back.
-/

namespace DeclOrder

namespace Duplicate

/-- Among distinct names, the names of the duplicates are those of the blocks that are taken out. -/
theorem map_name_removed {blocks : List Block} (builtin : Option String)
    (distinct : (blocks.map (·.name)).Nodup) :
    ((removed blocks builtin).map (·.name)).Perm
      ((collapse blocks builtin).collapsed.map (·.name)) := by
  have unlike : ((removed blocks builtin).map (·.name)).Nodup :=
    distinct.sublist ((List.filter_sublist.trans List.filter_sublist).map _)
  have listed : ((collapse blocks builtin).collapsed.map (·.name)).Nodup := by
    rw [map_name_collapsed]
    exact (duplicates (withoutBuiltin blocks builtin)).ascending.imp String.ne_of_lt
  refine (List.perm_ext_iff_of_nodup unlike listed).mpr fun name => ?_
  rw [map_name_collapsed, ← NameSet.mem_iff, List.mem_map]
  constructor
  · rintro ⟨block, gone, rfl⟩
    exact (mem_removed_iff.mp gone).2
  · intro duplicate
    obtain ⟨block, known, -, rfl⟩ := mem_duplicates_iff.mp duplicate
    exact ⟨block, mem_removed_iff.mpr ⟨known, duplicate⟩, rfl⟩

/-- Distinct names are those of the blocks that stay, of those dropped and of the duplicates. -/
theorem perm_names_collapse {blocks : List Block} (builtin : Option String)
    (distinct : (blocks.map (·.name)).Nodup) :
    ((collapse blocks builtin).blocks.map (·.name) ++ ((collapse blocks builtin).dropped ++
      (collapse blocks builtin).collapsed.map (·.name))).Perm (blocks.map (·.name)) := by
  have stay : (collapse blocks builtin).blocks.map (·.name) =
      (surviving blocks builtin).map (·.name) := by
    rw [blocks_collapse_eq, List.map_map]
    rfl
  have dropped : (collapse blocks builtin).dropped =
      (blocks.filter fun block => builtin == some block.name).map (·.name) := rfl
  have whole := (perm_dropped_removed_surviving blocks builtin).map (·.name)
  rw [List.map_append, List.map_append, ← List.append_assoc, ← dropped, ← stay] at whole
  have replaced := ((map_name_removed builtin distinct).symm.append_left
    (collapse blocks builtin).dropped).append_right ((collapse blocks builtin).blocks.map (·.name))
  exact List.perm_append_comm.trans (replaced.trans whole)

end Duplicate

namespace Processor

/-- The record of a block that came to a place, with the place it had before. -/
def moveOf (before : List Block) (block : Block) (target : Nat) : Move where
  name := block.name
  source := (before.idxOf block).toUInt64
  target := target.toUInt64

variable {before after : List Block}

/-- Among distinct names, the moves are the blocks whose places differ, in the later order. -/
theorem moves_eq (distinct : (before.map (·.name)).Nodup) (perm : after.Perm before) :
    moves before after =
      (after.zipIdx.filter fun (block, target) => before.idxOf block ≠ target).map
        fun (block, target) => moveOf before block target := by
  calc moves before after
      = after.zipIdx.filterMap fun (block, target) =>
          if decide (before.idxOf block ≠ target) = true then some (moveOf before block target)
          else none := by
        refine List.filterMap_congr ?_
        rintro ⟨block, target⟩ member
        have known : block ∈ before :=
          perm.subset (List.mem_of_getElem? (List.mk_mem_zipIdx_iff_getElem?.mp member))
        have place := lastPlace?_eq_some distinct (List.getElem?_idxOf known)
        simp only [place, moveOf, ne_eq, decide_not, Bool.not_eq_true', decide_eq_false_iff_not,
          ite_not]
    _ = _ := by
        rw [← List.filterMap_eq_map, List.filterMap_filter]
        rfl

end Processor

/-- The list as it was before the moves: in each place what left it, or else what is there. -/
def restore {α : Type} (after : List α) (moves : List Move) : List α :=
  after.mapIdx fun place element =>
    match moves.find? (·.source == place.toUInt64) with
    | some move => after.getD move.target.toNat element
    | none => element

/-- Numbers that fit a word are told apart by it. -/
theorem toUInt64_inj {left right : Nat} (left_fits : left < UInt64.size)
    (right_fits : right < UInt64.size) (same : left.toUInt64 = right.toUInt64) : left = right := by
  calc left
      = left.toUInt64.toNat := (UInt64.toNat_ofNat_of_lt' left_fits).symm
    _ = right.toUInt64.toNat := congrArg UInt64.toNat same
    _ = right := UInt64.toNat_ofNat_of_lt' right_fits

namespace Processor

section Restore

variable {before after : List Block} (distinct : (before.map (·.name)).Nodup)
  (perm : after.Perm before) {place target : Nat} {block : Block}
include distinct perm

/-- Among distinct names, the moves are those of the blocks whose places differ. -/
theorem mem_moves_iff {move : Move} :
    move ∈ moves before after ↔ ∃ block target, after[target]? = some block ∧
      before.idxOf block ≠ target ∧ moveOf before block target = move := by
  simp [moves_eq distinct perm, List.mem_map, List.mem_filter, List.mk_mem_zipIdx_iff_getElem?,
    and_assoc]

/-- A move from a place leads where the block is now that stood there. -/
theorem target_of_source (fits : after.length ≤ UInt64.size) (stood : before[place]? = some block)
    (stands : after[target]? = some block) {move : Move} (listed : move ∈ moves before after)
    (leaves : move.source = place.toUInt64) : move.target = target.toUInt64 := by
  obtain ⟨other, reached, other_stands, -, rfl⟩ := (mem_moves_iff distinct perm).mp listed
  have other_known : other ∈ before := perm.subset (List.mem_of_getElem? other_stands)
  have within := fits.trans' perm.length_eq.ge
  have places : before.idxOf other = place :=
    toUInt64_inj ((List.idxOf_lt_length_iff.mpr other_known).trans_le within)
      ((List.getElem?_eq_some_iff.mp stood).1.trans_le within) leaves
  have other_stood := List.getElem?_idxOf other_known
  rw [places, stood] at other_stood
  obtain rfl := Option.some.inj other_stood
  have apart := (perm.map (·.name)).nodup_iff.mpr distinct
  rw [moveOf, Order.place_unique apart other_stands stands rfl]

/-- Among distinct names, the earlier order is rebuilt from the later one and the moves. -/
theorem restore_moves (fits : after.length ≤ UInt64.size) :
    restore after (moves before after) = before := by
  refine List.ext_getElem? fun place => ?_
  rw [restore, List.getElem?_mapIdx]
  cases stood : before[place]? with
  | none =>
    have outside := perm.length_eq.trans_le (List.getElem?_eq_none_iff.mp stood)
    rw [List.getElem?_eq_none_iff.mpr outside, Option.map_none]
  | some block =>
    obtain ⟨target, stands⟩ := List.getElem?_of_mem (perm.mem_iff.mpr (List.mem_of_getElem? stood))
    have inside := (List.getElem?_eq_some_iff.mp stands).1
    have place_inside : place < after.length :=
      (List.getElem?_eq_some_iff.mp stood).1.trans_eq perm.length_eq.symm
    rw [List.getElem?_eq_getElem place_inside, Option.map_some]
    congr 1
    -- A block that moved is found through its move, and without a move it is still in its place.
    split
    · next move found =>
      have leaves : move.source = place.toUInt64 := by simpa using List.find?_some found
      have target_eq := target_of_source distinct perm fits stood stands
        (List.mem_of_find?_eq_some found) leaves
      have place_eq : target.toUInt64.toNat = target :=
        UInt64.toNat_ofNat_of_lt' (inside.trans_le fits)
      rw [target_eq, place_eq, List.getD_eq_getElem?_getD, stands, Option.getD_some]
    · next unmoved =>
      have own : before.idxOf block = place := Order.place_unique distinct
        (List.getElem?_idxOf (List.mem_of_getElem? stood)) stood rfl
      have stays : place = target := by
        by_contra differs
        have listed : moveOf before block target ∈ moves before after :=
          (mem_moves_iff distinct perm).mpr ⟨block, target, stands, own.trans_ne differs, rfl⟩
        refine List.find?_eq_none.mp unmoved _ listed (beq_iff_eq.mpr ?_)
        rw [moveOf, own]
      subst stays
      exact (List.getElem?_eq_some_iff.mp stands).2

end Restore

end Processor

/-- The summary accounts for the declared names, given the blocks before and after ordering. -/
structure Summary.Accounts (summary : Summary) (declared : List String)
    (before after : List Block) : Prop where
  /-- The names of the blocks written, of those dropped and of the duplicates are the declared
  ones. -/
  parted : (after.map (·.name) ++
    (summary.dropped ++ summary.collapsed.map (·.name))).Perm declared
  /-- None of them is there twice. -/
  once : (after.map (·.name) ++ (summary.dropped ++ summary.collapsed.map (·.name))).Nodup
  /-- The blocks in the text are counted. -/
  blocksIn : summary.blocksIn = declared.length.toUInt64
  /-- The blocks written are counted. -/
  blocksOut : summary.blocksOut = after.length.toUInt64
  /-- The blocks in the text are those written, those dropped and those taken out. -/
  balanced : summary.blocksIn = summary.blocksOut + summary.dropped.length.toUInt64 +
    summary.collapsed.length.toUInt64
  /-- The moves are the blocks whose places before and after differ, with these places, in their
  final order. -/
  moved : summary.moves =
    (after.zipIdx.filter fun (block, target) => before.idxOf block ≠ target).map
      fun (block, target) => Processor.moveOf before block target
  /-- The order before is rebuilt from the final one and the moves, if places fit their words. -/
  rebuilt : after.length ≤ UInt64.size → restore after summary.moves = before

namespace Processor

/-- Constraining keeps the names. -/
theorem map_name_constrain (processor : Processor) (blocks : List Block) :
    (processor.constrain blocks).map (·.name) = blocks.map (·.name) := by
  rw [processor.constrain_eq_map, List.map_map]
  exact List.map_congr_left fun block _ => processor.name_constrainBlock block

/-- Distinct names are those of the blocks arranged, of those dropped and of the duplicates. -/
theorem perm_names_arrange (processor : Processor) {blocks : List Block}
    (distinct : (blocks.map (·.name)).Nodup) :
    ((processor.arrange blocks).blocks.map (·.name) ++
      ((processor.remaining blocks).dropped ++
        (processor.remaining blocks).collapsed.map (·.name))).Perm (blocks.map (·.name)) := by
  have arranged := (processor.arrange_perm blocks).map (·.name)
  rw [Resolution.map_name_annotate] at arranged
  have constrained := processor.map_name_constrain blocks
  have parted := Duplicate.perm_names_collapse processor.builtin (constrained ▸ distinct)
  rw [constrained] at parted
  exact (arranged.append_right _).trans parted

/-- The summary of a text with distinct names accounts for them. -/
theorem accounts_process (processor : Processor) {text : String}
    (distinct : (Source.ofText text).blockNames.Nodup) :
    (processor.process text).summary.Accounts (Source.ofText text).blockNames
      (Resolution.annotate (processor.remaining (Source.ofText text).blocks).blocks)
      (processor.arrange (Source.ofText text).blocks).blocks := by
  have perm := processor.arrange_perm (Source.ofText text).blocks
  have parted := processor.perm_names_arrange distinct
  have once := parted.nodup_iff.mpr distinct
  have apart := (perm.map (·.name)).nodup_iff.mp (once.sublist (List.sublist_append_left _ _))
  have lengths := parted.length_eq
  simp only [List.length_append, List.length_map] at lengths
  exact {
    parted := parted
    once := once
    blocksIn := by rw [Source.blockNames, List.length_map]; rfl
    blocksOut := rfl
    balanced := by
      change (Source.ofText text).blocks.length.toUInt64 = _
      rw [← lengths, Nat.toUInt64_eq, UInt64.ofNat_add, UInt64.ofNat_add, ← UInt64.add_assoc]
      rfl
    moved := moves_eq apart perm
    rebuilt := restore_moves apart perm }

end Processor

/-- The summary accounts for every declaration. Where the declared names are distinct, each is that
of a block written, of one dropped or of a duplicate, the numbers of blocks agree, and the moves are
exactly those of the strategy, so that they lead back to the order before it. -/
theorem process_accounts {choices : Choices} {text : String} {strategy : Order.Strategy}
    (accepted : Order.Strategy.ofKey? choices.strategy = some strategy)
    (distinct : (Source.ofText text).blockNames.Nodup) :
    ∃ outcome before after, process choices text = .ok outcome ∧
      before = Resolution.annotate (choices.remaining (Source.ofText text).blocks) ∧
      after = (strategy.reorder choices.maxPasses.toNat before).blocks ∧
      outcome.text = ((Source.ofText text).withBlocks after).toText
        outcome.summary.forwardReferences ∧
      outcome.summary.Accounts (Source.ofText text).blockNames before after := by
  let processor : Processor := {
    strategy
    cap := choices.maxPasses.toNat
    version := choices.version
    builtin := choices.builtin }
  have chosen : Processor.ofChoices choices = .ok processor := by
    rw [Processor.ofChoices, accepted]
  exact ⟨processor.process text, _, _, process_eq_ok_iff.mpr ⟨processor, chosen, rfl⟩, rfl, rfl,
    processor.text_process text, processor.accounts_process distinct⟩

/-- The lines of a module with a built-in declaration, a duplicate, and two declarations that refer
to each other. -/
def mingled : List String :=
  ["import pydantic", "", "class Base64(Base):", "    raw: str", "class Ring(Base):",
   "    bond: Bond1", "    left: Atom", "class Atom(Base):", "    ring: Ring",
   "class Bond1(Base):", "    size: int", "class Bond(Base):", "    size: int",
   "class Cell(Base):", "    rings: List[Ring]"]

/-- One repair, which is not enough, puts two of the four declarations that remain in each other's
place, and the summary accounts for all six. -/
theorem process_accounts_mingled :
    ∃ outcome before after,
      process { maxPasses := 1 } (Text.unlines .lf mingled) = .ok outcome ∧
      before.map (·.name) = ["Ring", "Atom", "Bond", "Cell"] ∧
      after.map (·.name) = ["Atom", "Ring", "Bond", "Cell"] ∧
      outcome.summary.Accounts ["Base64", "Ring", "Atom", "Bond1", "Bond", "Cell"]
        before after := by
  have plain : ∀ line ∈ mingled, Text.Plain line := by decide
  have lines_eq : Text.lines (Text.unlines .lf mingled) = mingled := Text.lines_unlines .lf plain
  have read : (Source.ofText (Text.unlines .lf mingled)).blocks =
      [{ name := "Base64", lines := ["class Base64(Base):", "    raw: str"] },
       { name := "Ring", lines := ["class Ring(Base):", "    bond: Bond1", "    left: Atom"] },
       { name := "Atom", lines := ["class Atom(Base):", "    ring: Ring"] },
       { name := "Bond1", lines := ["class Bond1(Base):", "    size: int"] },
       { name := "Bond", lines := ["class Bond(Base):", "    size: int"] },
       { name := "Cell", lines := ["class Cell(Base):", "    rings: List[Ring]"] }] := by
    rw [Source.ofText, lines_eq]
    decide
  have names : (Source.ofText (Text.unlines .lf mingled)).blockNames =
      ["Base64", "Ring", "Atom", "Bond1", "Bond", "Cell"] := by
    rw [Source.blockNames, read]
    rfl
  have distinct : (Source.ofText (Text.unlines .lf mingled)).blockNames.Nodup := by
    rw [names]
    decide
  obtain ⟨outcome, before, after, processed, entering, leaving, -, accounts⟩ :=
    process_accounts (rfl : Order.Strategy.ofKey? ({ maxPasses := 1 } : Choices).strategy =
      some .window) distinct
  rw [names] at accounts
  rw [read] at entering
  refine ⟨outcome, before, after, processed, ?_, ?_, accounts⟩
  · rw [entering, Resolution.map_name_annotate]
    decide +kernel
  · rw [leaving, entering]
    decide +kernel

end DeclOrder
