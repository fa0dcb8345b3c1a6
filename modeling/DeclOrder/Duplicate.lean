import DeclOrder.Block
import DeclOrder.Text.Substitution

/-!
# Duplicate declarations

A generator that meets one shape under several names appends digits: `Link`, `Link1`, `Link2`. A
block whose name is that of another block with one digit appended, and whose body is the same, is
its duplicate. Collapsing takes the duplicates out and puts the name of the block that stays in
their place wherever they were mentioned. A declaration that stands for a built-in type is taken
out in any case.
-/

namespace DeclOrder

/-- A duplicate that was taken out and the declaration that stands for it. -/
structure Duplicate where
  /-- The name of the declaration taken out. -/
  name : String
  /-- The name of the declaration that stays. -/
  base : String
  deriving DecidableEq, Repr

namespace Duplicate

/-- The name without the one digit at its end, if it ends in one. -/
def base? (name : String) : Option String :=
  match name.toList.getLast? with
  | some last => if last.isDigit then some (String.ofList name.toList.dropLast) else none
  | none => none

/-- Taking the digit off makes a name shorter. -/
theorem base?_length {name base : String} (found : base? name = some base) :
    base.length < name.length := by
  unfold base? at found
  split at found
  · next last ends =>
    split at found
    · have nonempty : name.toList ≠ [] := by
        intro empty
        simp [empty] at ends
      have positive := List.length_pos_iff.mpr nonempty
      rw [← Option.some.inj found, ← String.length_toList, ← String.length_toList,
        String.toList_ofList, List.length_dropLast]
      omega
    · exact absurd found (by simp)
  · exact absurd found (by simp)

/-- The last block of the name. -/
def lastNamed? (blocks : List Block) (name : String) : Option Block :=
  blocks.reverse.find? (·.name == name)

/-- The block has the body of the last block named by its own name without the digit. -/
def isDuplicate (blocks : List Block) (block : Block) : Bool :=
  match (base? block.name).bind (lastNamed? blocks) with
  | some base => base.lines.length == block.lines.length && base.body == block.body
  | none => false

/-- The names of the duplicates among the blocks. -/
def duplicates (blocks : List Block) : NameSet :=
  NameSet.ofList ((blocks.filter (isDuplicate blocks)).map (·.name))

/-- The first name on the way from a duplicate to its bases that is no duplicate itself. -/
def survivor (duplicates : NameSet) (name : String) : String :=
  if name ∈ duplicates then
    match _found : base? name with
    | some base => survivor duplicates base
    | none => name
  else
    name
  termination_by name.length
  decreasing_by exact base?_length _found

/-- What collapsing leaves and what it took out. -/
structure Collapse where
  /-- The blocks that stay, with the duplicates renamed in their lines. -/
  blocks : List Block
  /-- The duplicates taken out, by name. -/
  collapsed : List Duplicate
  /-- The names of the blocks taken out as built-in, once per block. -/
  dropped : List String

/-- The line with every collapsed name replaced by its survivor, one name after the other. -/
def renameLine (collapsed : List Duplicate) (line : String) : String :=
  collapsed.foldl (fun line entry => Text.substitute entry.name entry.base line) line

/-- Take out the built-in declaration and the duplicates, and rename the duplicates where they are
mentioned. -/
def collapse (blocks : List Block) (builtin : Option String) : Collapse :=
  let isBuiltin (block : Block) : Bool := builtin == some block.name
  let kept := blocks.filter (!isBuiltin ·)
  let names := duplicates kept
  let collapsed := names.names.map fun name => { name, base := survivor names name }
  { blocks := (kept.filter (decide <| ·.name ∉ names)).map fun block =>
      { block with lines := block.lines.map (renameLine collapsed) }
    collapsed
    dropped := (blocks.filter isBuiltin).map (·.name) }

end Duplicate

end DeclOrder
