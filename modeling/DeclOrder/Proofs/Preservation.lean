import DeclOrder.Proofs.ForwardStatements
import DeclOrder.Proofs.Processing
import DeclOrder.Proofs.RenamedLines

/-!
# Declarations are kept

Whatever the strategy and its cap, the declarations read from the text written are those of the text
processed, with their version fields constrained and their duplicates collapsed, in some order. The
names have to be words, and none of them one of the two words that tell the kind of a line: only
then does renaming a duplicate make no line one of another kind.
-/

namespace DeclOrder

/-- The declarations left of blocks with their version fields constrained and their duplicates
collapsed as chosen. -/
def Choices.remaining (choices : Choices) (blocks : List Block) : List Block :=
  let constrained := match choices.version with
    | some version => blocks.map version.apply
    | none => blocks
  (Duplicate.collapse constrained choices.builtin).blocks

/-- The name of a declaration is a word, and not one that tells the kind of a line. -/
structure Block.Named (block : Block) : Prop where
  /-- The name is a word. -/
  word : Text.isWord block.name = true
  /-- The name is not the word that opens declarations. -/
  notMarker : block.name ≠ "class"
  /-- The name is not the word that calls for forward references. -/
  notCall : block.name ≠ "update_forward_refs"

namespace Processor

variable {processor : Processor} {blocks : List Block}

/-- Constrained blocks have the names of those that they were made from. -/
theorem named_constrain (processor : Processor) (named : ∀ block ∈ blocks, block.Named) :
    ∀ block ∈ processor.constrain blocks, block.Named := by
  intro block member
  rw [processor.constrain_eq_map] at member
  obtain ⟨original, known, rfl⟩ := List.mem_map.mp member
  have name_eq := processor.name_constrainBlock original
  obtain ⟨word, notMarker, notCall⟩ := named original known
  exact ⟨name_eq ▸ word, name_eq ▸ notMarker, name_eq ▸ notCall⟩

/-- What remains of blocks can be written and read back if they can. -/
theorem writable_remaining (single : ∀ version ∈ processor.version, '\n' ∉ version.pattern.toList)
    (named : ∀ block ∈ blocks, block.Named) (writable : ∀ block ∈ blocks, block.Writable) :
    ∀ block ∈ (processor.remaining blocks).blocks, block.Writable := by
  intro block member
  have constrained := processor.named_constrain named
  obtain ⟨original, known, stays, rfl⟩ := exists_of_mem_remaining member
  have name_eq := processor.name_constrainBlock original
  exact Duplicate.writable_renamed
    (Duplicate.consistent_collapse fun block member => (constrained block member).word)
    (Duplicate.spared_of_undeclared fun block member => (constrained block member).notMarker)
    (Duplicate.spared_of_undeclared fun block member => (constrained block member).notCall)
    (writable_constrainBlock single (writable original known))
    (name_eq ▸ (named original known).word) (name_eq ▸ stays)

/-- The names with a statement are names of blocks. -/
theorem exists_of_mem_statements (bare : ∀ block ∈ blocks, block.bare = block) {name : String}
    (needed : name ∈ processor.statements blocks) : ∃ block ∈ blocks, block.name = name := by
  obtain ⟨place, block, stands, rfl, -⟩ := ForwardReference.mem_names_iff.mp needed
  have arranged : block.bare ∈ (processor.arrange blocks).blocks.map Block.bare :=
    List.mem_map_of_mem (List.mem_of_getElem? stands)
  have remains := (processor.map_bare_arrange bare).mem_iff.mp arranged
  obtain ⟨original, known, -, same⟩ := exists_of_mem_remaining remains
  have names : (Duplicate.renamed _ (processor.constrainBlock original)).name = block.bare.name :=
    congrArg Block.name same
  exact ⟨original, known, (processor.name_constrainBlock original).symm.trans names⟩

/-- The text written has the declarations that remain of the text processed and its preamble up to
blank lines at the end. -/
theorem ofText_process {text : String}
    (unreturned : ∀ line ∈ Text.lines text, line.toList.getLast? ≠ some '\r')
    (single : ∀ version ∈ processor.version, '\n' ∉ version.pattern.toList)
    (named : ∀ block ∈ (Source.ofText text).blocks, block.Named)
    (survives : (processor.remaining (Source.ofText text).blocks).blocks ≠ []) :
    (Source.ofText (processor.process text).text).blocks.Perm
        (processor.remaining (Source.ofText text).blocks).blocks ∧
      Text.dropBlankTail (Source.ofText (processor.process text).text).preamble =
        Text.dropBlankTail (Source.ofText text).preamble := by
  have bare : ∀ block ∈ (Source.ofText text).blocks, block.bare = block :=
    fun _ member => Source.bare_of_mem_ofText member
  have original := Source.readable_ofText unreturned
  have writable := writable_remaining single named fun block member => original.writable member
  have readable := readable_arrange original bare writable
  have perm := processor.map_bare_arrange bare
  have nonempty : (processor.arrange (Source.ofText text).blocks).blocks ≠ [] := by
    intro empty
    rw [empty, List.map_nil, List.nil_perm] at perm
    exact survives perm
  have words : ∀ name ∈ processor.statements (Source.ofText text).blocks,
      Text.isWord name = true := by
    intro name needed
    obtain ⟨block, known, rfl⟩ := exists_of_mem_statements bare needed
    exact (named block known).word
  rw [text_process, Source.ofText_toText readable nonempty words]
  dsimp only [Source.blocks_withBlocks, Source.preamble_withBlocks]
  constructor
  · exact perm
  · exact Source.dropBlankTail_lead _

end Processor

/-- No declaration is lost, added or altered: where the names are words that do not tell the kind of
a line and a declaration remains, the declarations of the text written are those of the text
processed, constrained and without duplicates, in some order, and its preamble is the same up to
blank lines at the end. -/
theorem process_keeps_declarations {choices : Choices} {text : String}
    (accepted : choices.strategy = "scc" ∨ choices.strategy = "window")
    (unreturned : ∀ line ∈ Text.lines text, line.toList.getLast? ≠ some '\r')
    (single : ∀ version ∈ choices.version, '\n' ∉ version.pattern.toList)
    (named : ∀ block ∈ (Source.ofText text).blocks, block.Named)
    (survives : choices.remaining (Source.ofText text).blocks ≠ []) :
    ∃ outcome, process choices text = .ok outcome ∧
      (Source.ofText outcome.text).blocks.Perm (choices.remaining (Source.ofText text).blocks) ∧
      Text.dropBlankTail (Source.ofText outcome.text).preamble =
        Text.dropBlankTail (Source.ofText text).preamble := by
  obtain ⟨processor, chosen, version_eq, builtin_eq⟩ := Processor.exists_ofChoices accepted
  have remaining_eq (blocks : List Block) :
      choices.remaining blocks = (processor.remaining blocks).blocks := by
    rw [Choices.remaining, ← version_eq, ← builtin_eq]
    rfl
  rw [remaining_eq] at survives ⊢
  exact ⟨processor.process text, process_eq_ok_iff.mpr ⟨processor, chosen, rfl⟩,
    Processor.ofText_process unreturned (version_eq ▸ single) named survives⟩

/-- The lines of a module with two declarations that refer to each other, one of them twice. -/
def twinned : List String :=
  ["import pydantic", "", "class Node(Base):", "    edge: Optional[Edge1]", "class Edge1(Base):",
   "    ends: List[Node]", "class Edge(Base):", "    ends: List[Node]"]

/-- However few repairs the module is given, the two declarations that remain of it are read back
from what is written. -/
theorem process_keeps_declarations_twinned :
    ∃ outcome, process { maxPasses := 3 } (Text.unlines .lf twinned) = .ok outcome ∧
      (Source.ofText outcome.text).blocks.Perm
        (({ maxPasses := 3 } : Choices).remaining
          (Source.ofText (Text.unlines .lf twinned)).blocks) ∧
      (({ maxPasses := 3 } : Choices).remaining
        (Source.ofText (Text.unlines .lf twinned)).blocks).map (·.lines) =
          [["class Node(Base):", "    edge: Optional[Edge]"],
           ["class Edge(Base):", "    ends: List[Node]"]] := by
  have plain : ∀ line ∈ twinned, Text.Plain line := fun line member =>
    have both : ∀ line ∈ twinned, '\n' ∉ line.toList ∧ line.toList.getLast? ≠ some '\r' := by decide
    ⟨(both line member).1, (both line member).2⟩
  have lines_eq : Text.lines (Text.unlines .lf twinned) = twinned := Text.lines_unlines .lf plain
  have unreturned : ∀ line ∈ Text.lines (Text.unlines .lf twinned),
      line.toList.getLast? ≠ some '\r' := by
    rw [lines_eq]
    exact fun line member => (plain line member).unreturned
  have read : (Source.ofText (Text.unlines .lf twinned)).blocks =
      [{ name := "Node", lines := ["class Node(Base):", "    edge: Optional[Edge1]"] },
       { name := "Edge1", lines := ["class Edge1(Base):", "    ends: List[Node]"] },
       { name := "Edge", lines := ["class Edge(Base):", "    ends: List[Node]"] }] := by
    rw [Source.ofText, lines_eq]
    decide
  have remain : (({ maxPasses := 3 } : Choices).remaining
      (Source.ofText (Text.unlines .lf twinned)).blocks).map (·.lines) =
        [["class Node(Base):", "    edge: Optional[Edge]"],
         ["class Edge(Base):", "    ends: List[Node]"]] := by
    rw [read]
    decide +kernel
  have words : ∀ block ∈ (Source.ofText (Text.unlines .lf twinned)).blocks,
      Text.isWord block.name = true ∧ block.name ≠ "class" ∧
        block.name ≠ "update_forward_refs" := by
    rw [read]
    decide
  have survives : ({ maxPasses := 3 } : Choices).remaining
      (Source.ofText (Text.unlines .lf twinned)).blocks ≠ [] := by
    intro empty
    rw [empty] at remain
    exact List.cons_ne_nil _ _ remain.symm
  obtain ⟨outcome, processed, perm, -⟩ := process_keeps_declarations (.inr rfl) unreturned
    (by decide) (fun block member => ⟨(words block member).1, (words block member).2.1,
      (words block member).2.2⟩) survives
  exact ⟨outcome, processed, perm, remain⟩

end DeclOrder
