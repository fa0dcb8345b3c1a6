import DeclOrder.Process
import DeclOrder.Proofs.Duplicate
import DeclOrder.Proofs.Order.Repair
import DeclOrder.Proofs.Order.Scheduling
import DeclOrder.Proofs.Resolution
import DeclOrder.Proofs.VersionConstraint

/-!
# The stages of processing

What the stages do to the blocks of a source one by one and as a whole, as far as it does not depend
on the strategy: the version fields are constrained block by block, and ordering keeps the resolved
blocks. Where no duplicate is taken out, the blocks written are thus those read, constrained and in
another order, so they can be read back.
-/

namespace DeclOrder

namespace Order

/-- Both strategies keep the blocks. -/
theorem Strategy.reorder_perm (strategy : Strategy) (cap : Nat) (blocks : List Block) :
    (strategy.reorder cap blocks).blocks.Perm blocks := by
  cases strategy with
  | components => exact Schedule.reorder_perm blocks
  | window => exact Repair.reorder_perm cap blocks

/-- Ordering again by a strategy that came to its end changes nothing. -/
theorem Strategy.reorder_reorder {strategy : Strategy} {cap : Nat} {blocks : List Block}
    (distinct : (blocks.map (·.name)).Nodup)
    (converged : strategy = .window → (strategy.reorder cap blocks).converged = true) :
    (strategy.reorder cap (strategy.reorder cap blocks).blocks).blocks =
      (strategy.reorder cap blocks).blocks := by
  cases strategy with
  | components => exact Schedule.reorder_reorder distinct
  | window =>
    have settled := (Repair.repairFrom_converged_iff 0 cap blocks).mp (converged rfl)
    exact Repair.reorder_of_settled settled cap

end Order

namespace Processor

/-- A block with its version fields constrained. -/
def constrainBlock (processor : Processor) (block : Block) : Block :=
  match processor.version with
  | some version => version.apply block
  | none => block

/-- Constraining goes block by block. -/
theorem constrain_eq_map (processor : Processor) (blocks : List Block) :
    processor.constrain blocks = blocks.map processor.constrainBlock := by
  unfold constrain constrainBlock
  cases processor.version with
  | some version => rfl
  | none => exact (List.map_id blocks).symm

/-- Constraining keeps the name. -/
theorem name_constrainBlock (processor : Processor) (block : Block) :
    (processor.constrainBlock block).name = block.name := by
  unfold constrainBlock
  cases processor.version <;> rfl

/-- Constraining is unconcerned about references. -/
theorem bare_constrainBlock (processor : Processor) (block : Block) :
    (processor.constrainBlock block).bare = processor.constrainBlock block.bare := by
  unfold constrainBlock
  cases processor.version <;> rfl

/-- A constrained block is constrained to itself. -/
theorem constrainBlock_constrainBlock (processor : Processor) (block : Block) :
    processor.constrainBlock (processor.constrainBlock block) = processor.constrainBlock block := by
  unfold constrainBlock
  cases processor.version with
  | some version => exact version.apply_apply block
  | none => rfl

/-- A block can still be written and read back when it is constrained, if the pattern can. -/
theorem writable_constrainBlock {processor : Processor}
    (single : ∀ version ∈ processor.version, '\n' ∉ version.pattern.toList) {block : Block}
    (writable : block.Writable) : (processor.constrainBlock block).Writable := by
  unfold constrainBlock
  cases version_eq : processor.version with
  | some version => exact VersionConstraint.writable_apply (single version version_eq) writable
  | none => exact writable

/-- The blocks of a source without duplicates and built-in ones. -/
def remaining (processor : Processor) (blocks : List Block) : Duplicate.Collapse :=
  Duplicate.collapse (processor.constrain blocks) processor.builtin

/-- The blocks of a source in the order in which they are written. -/
def arrange (processor : Processor) (blocks : List Block) : Order.Reordering :=
  processor.strategy.reorder processor.cap
    (Resolution.annotate (processor.remaining blocks).blocks)

/-- The names with a statement behind the blocks of a source. -/
def statements (processor : Processor) (blocks : List Block) : List String :=
  (ForwardReference.names (processor.arrange blocks).blocks).names

/-- What is written is the source with its blocks arranged. -/
theorem text_process (processor : Processor) (text : String) :
    (processor.process text).text =
      ((Source.ofText text).withBlocks
        (processor.arrange (Source.ofText text).blocks).blocks).toText
        (processor.statements (Source.ofText text).blocks) := rfl

/-- A text counts as changed if what is written differs from it. -/
theorem changed_process (processor : Processor) (text : String) :
    (processor.process text).changed = ((processor.process text).text != text) := rfl

/-- The moves reported are those that arranging makes. -/
theorem moves_process (processor : Processor) (text : String) :
    (processor.process text).summary.moves =
      moves (Resolution.annotate (processor.remaining (Source.ofText text).blocks).blocks)
        (processor.arrange (Source.ofText text).blocks).blocks := rfl

/-- The names reported as collapsed are those of the duplicates among the blocks. -/
theorem collapsed_process (processor : Processor) (text : String) :
    (processor.process text).summary.collapsed =
      (processor.remaining (Source.ofText text).blocks).collapsed := rfl

/-- The names reported as dropped are those of the built-in blocks. -/
theorem dropped_process (processor : Processor) (text : String) :
    (processor.process text).summary.dropped =
      (processor.remaining (Source.ofText text).blocks).dropped := rfl

/-- Arranging keeps the blocks that remain, as they are resolved. -/
theorem arrange_perm (processor : Processor) (blocks : List Block) :
    (processor.arrange blocks).blocks.Perm
      (Resolution.annotate (processor.remaining blocks).blocks) :=
  processor.strategy.reorder_perm processor.cap _

/-- What remains of blocks is constrained ones with the duplicates renamed. -/
theorem exists_of_mem_remaining {processor : Processor} {blocks : List Block} {block : Block}
    (member : block ∈ (processor.remaining blocks).blocks) :
    ∃ original ∈ blocks, original.name ∉ (processor.remaining blocks).collapsed.map (·.name) ∧
      Duplicate.renamed (processor.remaining blocks).collapsed
        (processor.constrainBlock original) = block := by
  rw [remaining, Duplicate.blocks_collapse_eq] at member
  obtain ⟨kept, surviving, rfl⟩ := List.mem_map.mp member
  obtain ⟨inside, stays⟩ := List.mem_filter.mp surviving
  have constrained := (List.mem_filter.mp inside).1
  rw [processor.constrain_eq_map] at constrained
  obtain ⟨original, known, rfl⟩ := List.mem_map.mp constrained
  refine ⟨original, known, ?_, rfl⟩
  rw [remaining, Duplicate.map_name_collapsed, ← NameSet.mem_iff,
    ← processor.name_constrainBlock original]
  exact of_decide_eq_true stays

/-- Nothing is known of the references of what remains of blocks that were just read. -/
theorem bare_remaining (processor : Processor) {blocks : List Block}
    (bare : ∀ block ∈ blocks, block.bare = block) :
    ∀ block ∈ (processor.remaining blocks).blocks, block.bare = block := by
  intro block member
  obtain ⟨original, known, -, rfl⟩ := exists_of_mem_remaining member
  have constrained := processor.bare_constrainBlock original
  rw [bare original known] at constrained
  exact congrArg (Duplicate.renamed _) constrained

/-- Blocks that were just read are arranged to what remains of them. -/
theorem map_bare_arrange (processor : Processor) {blocks : List Block}
    (bare : ∀ block ∈ blocks, block.bare = block) :
    ((processor.arrange blocks).blocks.map Block.bare).Perm
      (processor.remaining blocks).blocks := by
  have perm := (processor.arrange_perm blocks).map Block.bare
  have same := (List.map_congr_left (processor.bare_remaining bare)).trans
    (List.map_id (processor.remaining blocks).blocks)
  rwa [Resolution.map_bare_annotate, same] at perm

/-- A source that can be written and read back still can with its blocks arranged, if what remains
of them can. -/
theorem readable_arrange {processor : Processor} {source : Source} (readable : source.Readable)
    (bare : ∀ block ∈ source.blocks, block.bare = block)
    (writable : ∀ block ∈ (processor.remaining source.blocks).blocks, block.Writable) :
    (source.withBlocks (processor.arrange source.blocks).blocks).Readable := by
  refine readable.withBlocks fun block member => ?_
  have remains := (processor.map_bare_arrange bare).mem_iff.mp (List.mem_map_of_mem member)
  exact (writable block.bare remains).of_bare rfl

/-- The processing that is chosen is made up of the choices. -/
theorem ofChoices_eq_ok {choices : Choices} {processor : Processor}
    (chosen : ofChoices choices = .ok processor) :
    Order.Strategy.ofKey? choices.strategy = some processor.strategy ∧
      processor.version = choices.version ∧ processor.builtin = choices.builtin := by
  unfold ofChoices at chosen
  split at chosen
  · exact absurd chosen (by simp)
  · next strategy found =>
    obtain rfl := Except.ok.inj chosen
    exact ⟨found, rfl, rfl⟩

/-- The processing that is chosen has the strategy of the key chosen. -/
theorem key_ofChoices {choices : Choices} {processor : Processor}
    (chosen : ofChoices choices = .ok processor) :
    processor.strategy.key = choices.strategy ∧ processor.version = choices.version := by
  obtain ⟨found, version_eq, -⟩ := ofChoices_eq_ok chosen
  unfold Order.Strategy.ofKey? at found
  have key : processor.strategy.key = choices.strategy := by simpa using List.find?_some found
  exact ⟨key, version_eq⟩

/-- There is processing for every strategy that can be chosen. -/
theorem exists_ofChoices {choices : Choices}
    (accepted : choices.strategy = "scc" ∨ choices.strategy = "window") :
    ∃ processor, ofChoices choices = .ok processor ∧ processor.version = choices.version ∧
      processor.builtin = choices.builtin := by
  unfold ofChoices
  rcases accepted with components | window
  · rw [components]
    exact ⟨_, rfl, rfl, rfl⟩
  · rw [window]
    exact ⟨_, rfl, rfl, rfl⟩

end Processor

/-- Processing is done by the processor chosen. -/
theorem process_eq_ok_iff {choices : Choices} {text : String} {outcome : Outcome} :
    process choices text = .ok outcome ↔
      ∃ processor, Processor.ofChoices choices = .ok processor ∧
        processor.process text = outcome := by
  unfold process
  cases Processor.ofChoices choices with
  | error refusal => simp [Except.map]
  | ok processor => simp [Except.map]

end DeclOrder
