import DeclOrder.Block
import DeclOrder.Mention

/-!
# Resolved references

A block depends on the declarations of its module that its body mentions. Which mentions are
references is known only once every declaration is, so resolution works on all blocks at once.
-/

namespace DeclOrder.Resolution

/-- Keep of each block's mentions the declared names other than its own, and note whether its own
is among them. -/
def resolve (blocks : List Block) : List Block :=
  let declared := NameSet.ofList (blocks.map (·.name))
  blocks.map fun block =>
    { block with
      refersToSelf := decide (block.name ∈ block.mentions)
      references := block.mentions.filter fun name =>
        decide (name ≠ block.name) && decide (name ∈ declared) }

/-- Read the mentions of each block off its body, and resolve them. -/
def annotate (blocks : List Block) : List Block :=
  resolve (blocks.map fun block => { block with mentions := Mention.ofLines block.body })

end DeclOrder.Resolution
