import DeclOrder.Proofs.FixedPoint
import DeclOrder.Proofs.Order.Dependence
import DeclOrder.Proofs.Preservation
import DeclOrder.Proofs.Stability

/-!
# Base classes and the order of declarations

The signature of a declaration names its bases, but only bodies are scanned for references. So a
base is not a dependency by itself, and the order may put a declaration before a base that it came
after: it stays behind exactly as other names do. Where nothing is collapsed or dropped, signatures
are written as they were read, and a base that is secured before the declaration still comes first.
-/

namespace DeclOrder

open scoped List

/-- The part stands in the text with no word character next to it. The character in front of the
text is given. -/
def Text.standsApart (part : List Char) (before : Option Char) (text : List Char) : Bool :=
  let here := match Text.after? part text with
    | some after => !(before.any Text.isWordChar || after.head?.any Text.isWordChar)
    | none => false
  match text with
  | [] => here
  | char :: rest => here || standsApart part (some char) rest

/-- What stands between the first opening parenthesis of a line and its last closing one. -/
def parenthesised (line : List Char) : List Char :=
  let opened := (line.dropWhile (· != '(')).drop 1
  ((opened.reverse.dropWhile (· != ')')).drop 1).reverse

namespace Block

/-- The name stands between the parentheses of the signature. -/
def inherits (block : Block) (name : String) : Bool :=
  Text.standsApart name.toList none (parenthesised (block.lines.headD "").toList)

/-- What a block inherits from stands in its signature. -/
theorem inherits_congr {left right : Block} (same : left.lines.head? = right.lines.head?)
    (name : String) : left.inherits name = right.inherits name := by
  rw [inherits, inherits, List.headD_eq_head?_getD, List.headD_eq_head?_getD, same]

end Block

/-- Every declared name that stands in a signature is declared before that declaration. -/
def BasesFirst (blocks : List Block) : Prop :=
  ∀ heir ∈ blocks, ∀ base ∈ blocks.map (·.name), heir.inherits base →
    [base, heir.name] <+ blocks.map (·.name)

instance (blocks : List Block) : Decidable (BasesFirst blocks) :=
  inferInstanceAs (Decidable (∀ heir ∈ blocks, ∀ base ∈ blocks.map (·.name), heir.inherits base →
    [base, heir.name] <+ blocks.map (·.name)))

/-- The name and the signature of a block. -/
def Block.header (block : Block) : String × Option String := (block.name, block.lines.head?)

namespace Processor

variable {processor : Processor} {blocks : List Block}

/-- Constraining keeps the signature. -/
theorem header_constrainBlock (processor : Processor) (block : Block) :
    (processor.constrainBlock block).header = block.header := by
  have kept (constraint : VersionConstraint) :
      (constraint.apply block).lines.head? = block.lines.head? := by
    rw [List.head?_eq_getElem?, constraint.getElem?_lines_apply block 0, List.head?_eq_getElem?]
    exact Option.map_id'
  rw [Block.header, processor.name_constrainBlock, constrainBlock]
  cases processor.version with
  | none => rfl
  | some version => rw [kept version, Block.header]

/-- Where nothing is collapsed or dropped, all blocks remain, constrained. -/
theorem blocks_remaining (uncollapsed : (processor.remaining blocks).collapsed = [])
    (undropped : (processor.remaining blocks).dropped = []) :
    (processor.remaining blocks).blocks = blocks.map processor.constrainBlock := by
  have kept : (processor.remaining blocks).blocks =
      Duplicate.withoutBuiltin (processor.constrain blocks) processor.builtin :=
    Duplicate.blocks_collapse uncollapsed
  rw [kept, Duplicate.dropped_eq_nil_iff.mp undropped, processor.constrain_eq_map]

/-- Resolution keeps names and signatures. -/
theorem map_header_annotate (blocks : List Block) :
    (Resolution.annotate blocks).map Block.header = blocks.map Block.header := by
  rw [Resolution.annotate_eq, List.map_map]
  rfl

/-- Where nothing is collapsed or dropped, what is arranged has the names and signatures of the
blocks. -/
theorem map_header_annotate_remaining (uncollapsed : (processor.remaining blocks).collapsed = [])
    (undropped : (processor.remaining blocks).dropped = []) :
    (Resolution.annotate (processor.remaining blocks).blocks).map Block.header =
      blocks.map Block.header := by
  rw [map_header_annotate, blocks_remaining uncollapsed undropped, List.map_map]
  exact List.map_congr_left fun block _ => processor.header_constrainBlock block

/-- Names are part of what is known of signatures. -/
theorem map_name_of_header {others : List Block}
    (same : others.map Block.header = blocks.map Block.header) :
    others.map (·.name) = blocks.map (·.name) := by
  have names := congrArg (List.map Prod.fst) same
  rw [List.map_map, List.map_map] at names
  exact names

/-- Where nothing is collapsed or dropped, the blocks are written with the names and signatures they
were read with, and those secured before another one that they come before are written before it. -/
theorem arrange_keeps_bases (distinct : (blocks.map (·.name)).Nodup)
    (uncollapsed : (processor.remaining blocks).collapsed = [])
    (undropped : (processor.remaining blocks).dropped = []) :
    ((processor.arrange blocks).blocks.map Block.header).Perm (blocks.map Block.header) ∧
      ∀ base heir, [base, heir] <+ blocks.map (·.name) →
        Order.Secured processor.strategy (processor.arrange blocks).converged
          (Resolution.annotate (processor.remaining blocks).blocks) base heir →
        [base, heir] <+ (processor.arrange blocks).blocks.map (·.name) := by
  have headers := map_header_annotate_remaining uncollapsed undropped
  have names := map_name_of_header headers
  constructor
  · exact headers ▸ (processor.arrange_perm blocks).map Block.header
  · intro base heir before secured
    have remaining_distinct : ((processor.remaining blocks).blocks.map (·.name)).Nodup := by
      rwa [← Resolution.map_name_annotate, names]
    have resolved : Order.Resolved (Resolution.annotate (processor.remaining blocks).blocks) := by
      refine Order.resolved_resolve ?_
      rwa [List.map_map]
    exact secured.pair_sublist_reorder resolved (names ▸ before)

end Processor

/-- Where nothing is collapsed or dropped, processing keeps every base before the declarations that
it came before, if it is secured before them. What is written are the declarations that were read,
with the same names and signatures. -/
theorem process_keeps_bases {choices : Choices} {text : String} {outcome : Outcome}
    (processed : process choices text = .ok outcome)
    (distinct : (Source.ofText text).blockNames.Nodup)
    (uncollapsed : outcome.summary.collapsed = []) (undropped : outcome.summary.dropped = []) :
    ∃ written : List Block, ∃ strategy : Order.Strategy,
      Order.Strategy.ofKey? choices.strategy = some strategy ∧
      outcome.text = ((Source.ofText text).withBlocks written).toText
        outcome.summary.forwardReferences ∧
      ((∀ line ∈ Text.lines text, line.toList.getLast? ≠ some '\r') →
        (∀ version ∈ choices.version, '\n' ∉ version.pattern.toList) →
        (∀ name ∈ outcome.summary.forwardReferences, Text.isWord name = true) →
        (Source.ofText outcome.text).blocks = written.map Block.bare) ∧
      (written.map Block.header).Perm ((Source.ofText text).blocks.map Block.header) ∧
      (∀ heir ∈ written, ∀ base, heir.inherits base →
        [base, heir.name] <+ (Source.ofText text).blockNames →
        Order.Secured strategy outcome.summary.converged
          (Resolution.annotate (choices.remaining (Source.ofText text).blocks)) base heir.name →
        [base, heir.name] <+ written.map (·.name)) ∧
      (BasesFirst (Source.ofText text).blocks →
        (∀ heir ∈ (Source.ofText text).blocks, ∀ base ∈ (Source.ofText text).blockNames,
          heir.inherits base → Order.Secured strategy outcome.summary.converged
            (Resolution.annotate (choices.remaining (Source.ofText text).blocks)) base heir.name) →
        BasesFirst written) := by
  obtain ⟨processor, chosen, rfl⟩ := process_eq_ok_iff.mp processed
  obtain ⟨found, version_eq, builtin_eq⟩ := Processor.ofChoices_eq_ok chosen
  have remaining_eq : choices.remaining (Source.ofText text).blocks =
      (processor.remaining (Source.ofText text).blocks).blocks := by
    rw [Choices.remaining, ← version_eq, ← builtin_eq]
    rfl
  obtain ⟨headers, kept⟩ := Processor.arrange_keeps_bases distinct uncollapsed undropped
  rw [remaining_eq]
  refine ⟨(processor.arrange (Source.ofText text).blocks).blocks, processor.strategy, found,
    processor.text_process text, fun unreturned single words => ?_, headers, ?_, ?_⟩
  · exact Processor.blocks_ofText_process unreturned (version_eq ▸ single) uncollapsed words
  · intro heir _ base _ before secured
    exact kept base heir.name before secured
  · intro bases secured heir member base declared inherits
    have known : heir.header ∈ (Source.ofText text).blocks.map Block.header :=
      headers.mem_iff.mp (List.mem_map_of_mem member)
    obtain ⟨original, read, same⟩ := List.mem_map.mp known
    obtain ⟨name_eq, signature_eq⟩ := Prod.mk.inj same
    have names := headers.map Prod.fst
    rw [List.map_map, List.map_map] at names
    have base_read : base ∈ (Source.ofText text).blockNames := names.mem_iff.mp declared
    have inherits_read : original.inherits base = true := by
      rwa [Block.inherits_congr signature_eq]
    have before := bases original read base base_read inherits_read
    have safe := secured original read base base_read inherits_read
    rw [name_eq] at before safe
    exact kept base heir.name before safe

/-- The lines of a module in which two declarations come after their base, and the base needs what
stands between them. -/
def inherited : List String :=
  ["class Base(BaseModel):", "    dep: Dep", "class Child(Base):", "    name: str",
   "class Dep(BaseModel):", "    name: str", "class Other(Base):", "    name: str"]

/-- The declarations of that module as they are resolved. -/
def inheritedBlocks : List Block :=
  [{ name := "Base", lines := ["class Base(BaseModel):", "    dep: Dep"],
     mentions := NameSet.ofList ["Dep"], references := NameSet.ofList ["Dep"] },
   { name := "Child", lines := ["class Child(Base):", "    name: str"],
     mentions := NameSet.ofList ["str"] },
   { name := "Dep", lines := ["class Dep(BaseModel):", "    name: str"],
     mentions := NameSet.ofList ["str"] },
   { name := "Other", lines := ["class Other(Base):", "    name: str"],
     mentions := NameSet.ofList ["str"] }]

/-- Every line of that module can be read back. -/
theorem plain_inherited : ∀ line ∈ inherited, Text.Plain line := by decide

/-- The declarations are read off that module. -/
theorem ofText_inherited :
    (Source.ofText (Text.unlines .lf inherited)).blocks = inheritedBlocks.map Block.bare := by
  rw [Source.ofText, Text.lines_unlines .lf plain_inherited]
  decide

/-- Nothing is collapsed or dropped in that module. -/
theorem undisturbed_inherited {strategy : String} {outcome : Outcome}
    (processed : process { strategy, version := none, builtin := none }
      (Text.unlines .lf inherited) = .ok outcome) :
    outcome.summary.collapsed = [] ∧ outcome.summary.dropped = [] := by
  obtain ⟨processor, chosen, rfl⟩ := process_eq_ok_iff.mp processed
  obtain ⟨-, version_eq, builtin_eq⟩ := Processor.ofChoices_eq_ok chosen
  rw [Processor.collapsed_process, Processor.dropped_process, ofText_inherited,
    Processor.remaining, Processor.constrain, version_eq, builtin_eq]
  change (Duplicate.collapse (inheritedBlocks.map Block.bare) none).collapsed = [] ∧
    (Duplicate.collapse (inheritedBlocks.map Block.bare) none).dropped = []
  decide +kernel

/-- With any strategy, the declarations of that module are written in the order it gives them. -/
theorem ofText_process_inherited (strategy : Order.Strategy) {ordered : List Block}
    (order_eq : (strategy.reorder 1000 inheritedBlocks).blocks = ordered)
    (words : ∀ name ∈ (ForwardReference.names ordered).names, Text.isWord name = true) :
    (Source.ofText (Processor.process { strategy, cap := 1000, version := none, builtin := none }
      (Text.unlines .lf inherited)).text).blocks = ordered.map Block.bare := by
  have remaining : Resolution.annotate
      (Duplicate.collapse (inheritedBlocks.map Block.bare) none).blocks = inheritedBlocks := by
    decide +kernel
  have arranged : (Processor.arrange { strategy, cap := 1000, version := none, builtin := none }
      (Source.ofText (Text.unlines .lf inherited)).blocks).blocks = ordered := by
    rw [ofText_inherited, ← order_eq, ← remaining]
    rfl
  have uncollapsed : (Duplicate.collapse (inheritedBlocks.map Block.bare) none).collapsed = [] := by
    decide +kernel
  have unreturned : ∀ line ∈ Text.lines (Text.unlines .lf inherited),
      line.toList.getLast? ≠ some '\r' := by
    rw [Text.lines_unlines .lf plain_inherited]
    exact fun line member => (plain_inherited line member).unreturned
  rw [Processor.blocks_ofText_process unreturned, arranged]
  · exact fun version none_given => absurd none_given (Option.not_mem_none version)
  · rw [ofText_inherited]
    exact uncollapsed
  · rw [Processor.statements, arranged]
    exact words

/-- In the inherited module, all that the base needs comes before the last declaration, so the base
is scheduled before that. -/
theorem process_keeps_bases_inherited :
    ∃ outcome written, process { strategy := "scc", version := none, builtin := none }
        (Text.unlines .lf inherited) = .ok outcome ∧
      outcome.text = ((Source.ofText (Text.unlines .lf inherited)).withBlocks written).toText
        outcome.summary.forwardReferences ∧
      ["Base", "Other"] <+ written.map (·.name) := by
  obtain ⟨outcome, processed⟩ : ∃ outcome, process
      { strategy := "scc", version := none, builtin := none } (Text.unlines .lf inherited) =
        .ok outcome := ⟨_, rfl⟩
  obtain ⟨uncollapsed, undropped⟩ := undisturbed_inherited processed
  have distinct : (Source.ofText (Text.unlines .lf inherited)).blockNames.Nodup := by
    rw [Source.blockNames, ofText_inherited]
    decide
  have resolved :
      Resolution.annotate (({ strategy := "scc", version := none, builtin := none } :
        Choices).remaining (Source.ofText (Text.unlines .lf inherited)).blocks) =
          inheritedBlocks := by
    rw [ofText_inherited]
    decide +kernel
  obtain ⟨written, strategy, found, text_eq, -, headers, kept, -⟩ :=
    process_keeps_bases processed distinct uncollapsed undropped
  have strategy_eq : strategy = .components := (Option.some.inj found).symm
  have secured :
      Order.Secured strategy outcome.summary.converged inheritedBlocks "Base" "Other" := by
    refine .sooner "Other" strategy_eq Relation.ReflTransGen.refl fun used depends => ?_
    have used_mem : used ∈ ["Base", "Dep"] := depends.mem_of_closed (by decide) (by decide)
    refine ⟨used, ⟨Relation.ReflTransGen.refl, Relation.ReflTransGen.refl⟩, fun member both => ?_⟩
    have member_mem : member ∈ ["Other"] := both.1.mem_of_closed (by decide) (by decide)
    obtain rfl := List.mem_singleton.mp member_mem
    have before : ∀ used ∈ ["Base", "Dep"], [used, "Other"] <+ inheritedBlocks.map (·.name) := by
      decide
    exact before used used_mem
  have read : ("Other", some "class Other(Base):") ∈
      (Source.ofText (Text.unlines .lf inherited)).blocks.map Block.header := by
    rw [ofText_inherited]
    decide
  obtain ⟨heir, member, header_eq⟩ := List.mem_map.mp (headers.mem_iff.mpr read)
  obtain ⟨name_eq, signature_eq⟩ := Prod.mk.inj header_eq
  have inherits : heir.inherits "Base" = true := by
    have signature : heir.lines.head? = (Block.opening "" "class Other(Base):").lines.head? :=
      signature_eq
    rw [Block.inherits_congr signature]
    decide +kernel
  have before : ["Base", heir.name] <+
      (Source.ofText (Text.unlines .lf inherited)).blockNames := by
    rw [name_eq, Source.blockNames, ofText_inherited]
    decide
  have after := kept heir member "Base" inherits before (by rw [name_eq, resolved]; exact secured)
  exact ⟨outcome, written, processed, text_eq, name_eq ▸ after⟩

/-- In the inherited module the bases come first, and nothing is collapsed or dropped. Both
strategies write a declaration before its base. -/
theorem not_basesFirst_inherited :
    (Source.ofText (Text.unlines .lf inherited)).blockNames.Nodup ∧
      BasesFirst (Source.ofText (Text.unlines .lf inherited)).blocks ∧
      ∀ strategy ∈ ["scc", "window"], ∃ outcome,
        process { strategy, version := none, builtin := none } (Text.unlines .lf inherited) =
            .ok outcome ∧
          outcome.summary.collapsed = [] ∧ outcome.summary.dropped = [] ∧
          ¬ BasesFirst (Source.ofText outcome.text).blocks := by
  have scheduled : (Order.Strategy.reorder .components 1000 inheritedBlocks).blocks =
      [1, 2, 0, 3].filterMap (inheritedBlocks[·]?) := by
    cbv
  have repaired : (Order.Strategy.reorder .window 1000 inheritedBlocks).blocks =
      [3, 2, 0, 1].filterMap (inheritedBlocks[·]?) := by
    decide +kernel
  have broken (strategy : Order.Strategy) {ordered : List Block}
      (order_eq : (strategy.reorder 1000 inheritedBlocks).blocks = ordered)
      (words : ∀ name ∈ (ForwardReference.names ordered).names, Text.isWord name = true)
      (behind : ¬ BasesFirst (ordered.map Block.bare)) :
      ∃ outcome, process { strategy := strategy.key, version := none, builtin := none }
          (Text.unlines .lf inherited) = .ok outcome ∧
        outcome.summary.collapsed = [] ∧ outcome.summary.dropped = [] ∧
        ¬ BasesFirst (Source.ofText outcome.text).blocks := by
    have chosen :
        Processor.ofChoices { strategy := strategy.key, version := none, builtin := none } =
          .ok { strategy, cap := 1000, version := none, builtin := none } := by
      cases strategy <;> rfl
    have processed : process { strategy := strategy.key, version := none, builtin := none }
        (Text.unlines .lf inherited) = .ok _ := process_eq_ok_iff.mpr ⟨_, chosen, rfl⟩
    obtain ⟨uncollapsed, undropped⟩ := undisturbed_inherited processed
    refine ⟨_, processed, uncollapsed, undropped, ?_⟩
    rwa [ofText_process_inherited strategy order_eq words]
  rw [Source.blockNames, ofText_inherited]
  refine ⟨by decide, by decide +kernel, ?_⟩
  intro strategy member
  simp only [List.mem_cons, List.not_mem_nil, or_false] at member
  rcases member with rfl | rfl
  · exact broken .components scheduled (by decide) (by decide +kernel)
  · exact broken .window repaired (by decide) (by decide +kernel)

end DeclOrder
