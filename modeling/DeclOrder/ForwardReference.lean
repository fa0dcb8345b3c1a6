import DeclOrder.Order.Window

/-!
# Forward references

A block that refers to itself, or that some earlier block refers to, needs a statement that
settles its forward references once every name is known.
-/

namespace DeclOrder.ForwardReference

/-- A block at this place needs a statement. -/
def needed (blocks : List Block) (place : Nat) (block : Block) : Bool :=
  block.refersToSelf || (Order.window blocks block).earliestDependent < place

/-- The names that need a statement under the order of the blocks. -/
def names (blocks : List Block) : NameSet :=
  NameSet.ofList <|
    (blocks.zipIdx.filter fun (block, place) => needed blocks place block).map (·.1.name)

end DeclOrder.ForwardReference
