import DeclOrder.Proofs.Processing

/-!
# What processing writes is processed to itself

Each stage leaves alone what the whole process writes: the blocks are read back as they were
written, their version fields are constrained already, none of them is built-in or a duplicate,
their references are found again whatever their order, and both strategies keep an order that they
settled. So the same blocks are written with the same statements.
-/

namespace DeclOrder

namespace Processor

/-- Among distinct names, the last place of the name of a block is its own. -/
theorem lastPlace?_eq_some {blocks : List Block} (distinct : (blocks.map (·.name)).Nodup)
    {place : Nat} {block : Block} (stands : blocks[place]? = some block) :
    lastPlace? blocks block.name = some place := by
  have listed : (block, place) ∈ blocks.zipIdx.filter (·.1.name == block.name) := by
    apply List.mem_filter.mpr
    exact ⟨List.mk_mem_zipIdx_iff_getElem?.mpr stands, beq_self_eq_true block.name⟩
  obtain ⟨⟨other, last⟩, found⟩ := Option.isSome_iff_exists.mp
    (List.getLast?_isSome.mpr (List.ne_nil_of_mem listed))
  have last_mem := List.mem_filter.mp (List.mem_of_getLast? found)
  have last_stands : blocks[last]? = some other := List.mk_mem_zipIdx_iff_getElem?.mp last_mem.1
  have same : other.name = block.name := beq_iff_eq.mp last_mem.2
  have places : last = place := Order.place_unique distinct last_stands stands same
  rw [lastPlace?, found, Option.map_some, places]

/-- Among distinct names, no block of an unchanged order has moved. -/
theorem moves_self {blocks : List Block} (distinct : (blocks.map (·.name)).Nodup) :
    moves blocks blocks = [] := by
  apply List.filterMap_eq_nil_iff.mpr
  rintro ⟨block, place⟩ member
  have stands : blocks[place]? = some block := List.mk_mem_zipIdx_iff_getElem?.mp member
  have own := lastPlace?_eq_some distinct stands
  simp only [own, if_pos]

section Again

variable {processor : Processor} {blocks : List Block}

/-- Without duplicates, what remains of blocks is constrained ones. -/
theorem exists_constrained (uncollapsed : (processor.remaining blocks).collapsed = [])
    {block : Block} (member : block ∈ (processor.remaining blocks).blocks) :
    ∃ original ∈ blocks, processor.constrainBlock original = block := by
  have kept : (processor.remaining blocks).blocks =
      Duplicate.withoutBuiltin (processor.constrain blocks) processor.builtin :=
    Duplicate.blocks_collapse uncollapsed
  rw [kept, processor.constrain_eq_map] at member
  exact List.mem_map.mp (List.mem_filter.mp member).1

/-- Without duplicates, a source that was read can be written with its blocks arranged and read
back. -/
theorem readable_arranged {text : String}
    (unreturned : ∀ line ∈ Text.lines text, line.toList.getLast? ≠ some '\r')
    (single : ∀ version ∈ processor.version, '\n' ∉ version.pattern.toList)
    (uncollapsed : (processor.remaining (Source.ofText text).blocks).collapsed = []) :
    ((Source.ofText text).withBlocks
      (processor.arrange (Source.ofText text).blocks).blocks).Readable := by
  have original := Source.readable_ofText unreturned
  have writable : ∀ block ∈ (processor.remaining (Source.ofText text).blocks).blocks,
      block.Writable := by
    intro block member
    obtain ⟨read, known, rfl⟩ := exists_constrained uncollapsed member
    exact writable_constrainBlock single (original.writable known)
  exact readable_arrange original (fun _ member => Source.bare_of_mem_ofText member) writable

/-- Without duplicates, the blocks arranged are read back from the text written. -/
theorem blocks_ofText_process {text : String}
    (unreturned : ∀ line ∈ Text.lines text, line.toList.getLast? ≠ some '\r')
    (single : ∀ version ∈ processor.version, '\n' ∉ version.pattern.toList)
    (uncollapsed : (processor.remaining (Source.ofText text).blocks).collapsed = [])
    (words : ∀ name ∈ processor.statements (Source.ofText text).blocks, Text.isWord name = true) :
    (Source.ofText (processor.process text).text).blocks =
      (processor.arrange (Source.ofText text).blocks).blocks.map Block.bare :=
  ((readable_arranged unreturned single uncollapsed).reread words).1

/-- Arranged blocks are constrained already. -/
theorem constrain_arrange (bare : ∀ block ∈ blocks, block.bare = block)
    (uncollapsed : (processor.remaining blocks).collapsed = []) :
    processor.constrain ((processor.arrange blocks).blocks.map Block.bare) =
      (processor.arrange blocks).blocks.map Block.bare := by
  rw [processor.constrain_eq_map]
  refine (List.map_congr_left fun block member => ?_).trans (List.map_id _)
  have remains := (processor.map_bare_arrange bare).mem_iff.mp member
  obtain ⟨original, -, rfl⟩ := exists_constrained uncollapsed remains
  exact processor.constrainBlock_constrainBlock original

/-- Arranged blocks with distinct names remain as they are. -/
theorem remaining_arrange (bare : ∀ block ∈ blocks, block.bare = block)
    (uncollapsed : (processor.remaining blocks).collapsed = [])
    (distinct : ((processor.arrange blocks).blocks.map (·.name)).Nodup) :
    (processor.remaining ((processor.arrange blocks).blocks.map Block.bare)).blocks =
      (processor.arrange blocks).blocks.map Block.bare := by
  have distinct_bare : (((processor.arrange blocks).blocks.map Block.bare).map (·.name)).Nodup := by
    rw [List.map_map]
    exact distinct
  have perm := processor.map_bare_arrange bare
  have again := Duplicate.collapse_perm uncollapsed perm distinct_bare
  rw [remaining, constrain_arrange bare uncollapsed]
  exact again.2

/-- What is known of the references of arranged blocks with distinct names is found again. -/
theorem annotate_arrange (bare : ∀ block ∈ blocks, block.bare = block)
    (uncollapsed : (processor.remaining blocks).collapsed = [])
    (distinct : ((processor.arrange blocks).blocks.map (·.name)).Nodup) :
    Resolution.annotate
      (processor.remaining ((processor.arrange blocks).blocks.map Block.bare)).blocks =
      (processor.arrange blocks).blocks := by
  rw [remaining_arrange bare uncollapsed distinct]
  exact Resolution.annotate_bare (processor.arrange_perm blocks)

/-- Arranged blocks with distinct names are arranged to themselves by a strategy that came to its
end. -/
theorem arrange_arrange (bare : ∀ block ∈ blocks, block.bare = block)
    (uncollapsed : (processor.remaining blocks).collapsed = [])
    (distinct : ((processor.arrange blocks).blocks.map (·.name)).Nodup)
    (converged : processor.strategy = .window → (processor.arrange blocks).converged = true) :
    (processor.arrange ((processor.arrange blocks).blocks.map Block.bare)).blocks =
      (processor.arrange blocks).blocks := by
  have perm := processor.arrange_perm blocks
  have distinct_before :
      ((Resolution.annotate (processor.remaining blocks).blocks).map (·.name)).Nodup :=
    (perm.map (·.name)).nodup_iff.mp distinct
  have settled := Order.Strategy.reorder_reorder distinct_before converged
  rw [arrange, annotate_arrange bare uncollapsed distinct]
  exact settled

end Again

/-- Processing what was written, without duplicates and with distinct names, by a strategy that came
to its end writes the same text with the same statements and moves nothing. -/
theorem process_process {processor : Processor} {text : String}
    (unreturned : ∀ line ∈ Text.lines text, line.toList.getLast? ≠ some '\r')
    (single : ∀ version ∈ processor.version, '\n' ∉ version.pattern.toList)
    (converged : processor.strategy = .window →
      (processor.process text).summary.converged = true)
    (uncollapsed : (processor.process text).summary.collapsed = [])
    (distinct : (Source.ofText (processor.process text).text).blockNames.Nodup)
    (words : ∀ name ∈ (processor.process text).summary.forwardReferences,
      Text.isWord name = true) :
    (processor.process (processor.process text).text).text = (processor.process text).text ∧
      (processor.process (processor.process text).text).summary.forwardReferences =
        (processor.process text).summary.forwardReferences ∧
      (processor.process (processor.process text).text).summary.moves = [] := by
  have bare : ∀ block ∈ (Source.ofText text).blocks, block.bare = block :=
    fun _ member => Source.bare_of_mem_ofText member
  have readable := readable_arranged unreturned single uncollapsed
  have read : (Source.ofText (processor.process text).text).blocks =
      (processor.arrange (Source.ofText text).blocks).blocks.map Block.bare :=
    blocks_ofText_process unreturned single uncollapsed words
  have rewritten : ({ Source.ofText (processor.process text).text with
      blocks := (processor.arrange (Source.ofText text).blocks).blocks } : Source).toText
        (processor.statements (Source.ofText text).blocks) = (processor.process text).text :=
    (readable.reread words).2
  have arranged_distinct :
      ((processor.arrange (Source.ofText text).blocks).blocks.map (·.name)).Nodup := by
    rw [Source.blockNames, read, List.map_map] at distinct
    exact distinct
  have arranged := arrange_arrange bare uncollapsed arranged_distinct converged
  have annotated := annotate_arrange bare uncollapsed arranged_distinct
  have statements_eq : processor.statements (Source.ofText (processor.process text).text).blocks =
      processor.statements (Source.ofText text).blocks := by
    rw [statements, read, arranged, statements]
  refine ⟨?_, statements_eq, ?_⟩
  · rw [text_process processor (processor.process text).text, statements_eq, read, arranged]
    exact rewritten
  · rw [moves_process, read, annotated, arranged]
    exact moves_self arranged_distinct

end Processor

/-- Processing what was written once more, as it was chosen before, changes nothing: where no
duplicate was taken out, names are distinct and words where a statement needs them, and the strategy
came to its end, the same text is written with the same statements, and no block moves. -/
theorem process_outcome_fixed {choices : Choices} {text : String} {outcome : Outcome}
    (processed : process choices text = .ok outcome)
    (unreturned : ∀ line ∈ Text.lines text, line.toList.getLast? ≠ some '\r')
    (single : ∀ version ∈ choices.version, '\n' ∉ version.pattern.toList)
    (settled : choices.strategy = "scc" ∨
      choices.strategy = "window" ∧ outcome.summary.converged = true)
    (uncollapsed : outcome.summary.collapsed = [])
    (distinct : (Source.ofText outcome.text).blockNames.Nodup)
    (words : ∀ name ∈ outcome.summary.forwardReferences, Text.isWord name = true) :
    ∃ again, process choices outcome.text = .ok again ∧
      again.text = outcome.text ∧
      again.changed = false ∧
      again.summary.forwardReferences = outcome.summary.forwardReferences ∧
      again.summary.moves = [] := by
  obtain ⟨processor, chosen, rfl⟩ := process_eq_ok_iff.mp processed
  obtain ⟨key, version⟩ := Processor.key_ofChoices chosen
  have converged : processor.strategy = .window →
      (processor.process text).summary.converged = true := by
    intro window
    rw [window] at key
    rcases settled with components | ⟨-, converged⟩
    · have same : Order.Strategy.window.key = "scc" := key.trans components
      exact absurd same (by decide)
    · exact converged
  obtain ⟨same, statements, moves⟩ := Processor.process_process unreturned (version ▸ single)
    converged uncollapsed distinct words
  refine ⟨processor.process (processor.process text).text,
    process_eq_ok_iff.mpr ⟨processor, chosen, rfl⟩, same, ?_, statements, moves⟩
  rw [Processor.changed_process, same, bne_self_eq_false]

/-- The lines of a module whose first declaration refers to itself and to the one after it. -/
def tangled : List String :=
  ["class Part(Base):", "    parts: List[Part]", "    link: Link", "class Link(Base):",
   "    oscal_version: str"]

/-- Ordering the module moves a block and constrains a field, and once this is done, processing it
changes nothing. -/
theorem process_outcome_fixed_tangled :
    ∃ outcome, process {} (Text.unlines .lf tangled) = .ok outcome ∧ outcome.changed = true ∧
      ∃ again, process {} outcome.text = .ok again ∧ again.changed = false := by
  obtain ⟨outcome, processed⟩ : ∃ outcome, process {} (Text.unlines .lf tangled) = .ok outcome :=
    ⟨_, rfl⟩
  have plain : ∀ line ∈ tangled, '\n' ∉ line.toList ∧ line.toList.getLast? ≠ some '\r' := by
    decide
  have unreturned : ∀ line ∈ Text.lines (Text.unlines .lf tangled),
      line.toList.getLast? ≠ some '\r' := by
    rw [Text.lines_unlines .lf fun line member => ⟨(plain line member).1, (plain line member).2⟩]
    exact fun line member => (plain line member).2
  have evaluated : outcome.changed = true ∧ outcome.summary.converged = true ∧
      outcome.summary.collapsed = [] ∧ (Source.ofText outcome.text).blockNames.Nodup ∧
      ∀ name ∈ outcome.summary.forwardReferences, Text.isWord name = true := by
    rw [← Except.ok.inj processed]
    decide +kernel
  obtain ⟨changed, converged, uncollapsed, distinct, words⟩ := evaluated
  obtain ⟨again, reprocessed, -, unchanged, -, -⟩ := process_outcome_fixed processed unreturned
    (by decide) (.inr ⟨rfl, converged⟩) uncollapsed distinct words
  exact ⟨outcome, processed, changed, again, reprocessed, unchanged⟩

end DeclOrder
