import DeclOrder.ForwardReference
import DeclOrder.Order.Strategy
import DeclOrder.Resolution
import DeclOrder.Source
import DeclOrder.Summary
import DeclOrder.VersionConstraint

/-!
# Processing one module

A text is read, its version fields are constrained, its duplicates collapsed, its references
resolved, its blocks ordered, and it is written back with the forward statements that the order
needs. A text without anomalies and one with them are processed alike; only the choices made
beforehand can be wrong.
-/

namespace DeclOrder

/-- Why choices for processing are refused. -/
inductive ChoiceError where
  /-- No strategy has the key. -/
  | unknownStrategy (key : String)
  /-- The version pattern cannot be used. -/
  | invalidPattern (pattern : String) (refusal : PatternRefusal)
  deriving DecidableEq, Repr

/-- The wording of a refusal. -/
def ChoiceError.message : ChoiceError → String
  | .unknownStrategy key =>
    "unknown reorder strategy '" ++ key ++ "' (available: " ++
      ", ".intercalate (Order.Strategy.all.map (·.key)) ++ ")"
  | .invalidPattern pattern refusal =>
    "invalid version pattern '" ++ pattern ++ "': " ++ refusal.message

/-- What is chosen about the processing of a module. -/
structure Choices where
  /-- The key of the strategy. -/
  strategy : String := Order.Strategy.defaultKey
  /-- The cap on repair passes. -/
  maxPasses : UInt64 := Order.Strategy.defaultPasses
  /-- The constraint on version fields; without one they stay as they are. -/
  version : Option VersionConstraint := some {}
  /-- The name of the declaration that stands for a built-in type; without one none is taken
  out. -/
  builtin : Option String := some "Base64"

/-- The processing of modules by one strategy. -/
structure Processor where
  /-- The strategy. -/
  strategy : Order.Strategy
  /-- The cap on repair passes. -/
  cap : Nat
  /-- The constraint on version fields. -/
  version : Option VersionConstraint
  /-- The name of the declaration that stands for a built-in type. -/
  builtin : Option String

/-- What became of one module. -/
structure Outcome where
  /-- The text to be written. -/
  text : String
  /-- The text differs from the one read. -/
  changed : Bool
  /-- What was done. -/
  summary : Summary

namespace Processor

/-- The processing that was chosen. -/
def ofChoices (choices : Choices) : Except ChoiceError Processor :=
  match Order.Strategy.ofKey? choices.strategy with
  | none => .error (.unknownStrategy choices.strategy)
  | some strategy =>
    .ok { strategy, cap := choices.maxPasses.toNat, version := choices.version,
          builtin := choices.builtin }

/-- The blocks with their version fields constrained. -/
def constrain (processor : Processor) (blocks : List Block) : List Block :=
  match processor.version with
  | some version => blocks.map version.apply
  | none => blocks

/-- The names of the blocks that the constraint changes. -/
def constrained (processor : Processor) (blocks : List Block) : List String :=
  match processor.version with
  | some version => (blocks.filter version.changes).map (·.name)
  | none => []

/-- The place of the last block of the name. -/
def lastPlace? (blocks : List Block) (name : String) : Option Nat :=
  ((blocks.zipIdx.filter (·.1.name == name)).getLast?).map (·.2)

/-- The blocks whose place differs between two orders, in the later one. -/
def moves (before after : List Block) : List Move :=
  after.zipIdx.filterMap fun (block, target) =>
    match lastPlace? before block.name with
    | some source =>
      if source = target then none
      else some { name := block.name, source := source.toUInt64, target := target.toUInt64 }
    | none => none

/-- Process the text of a module. -/
def process (processor : Processor) (text : String) : Outcome :=
  let source := Source.ofText text
  let collapse := Duplicate.collapse (processor.constrain source.blocks) processor.builtin
  let annotated := Resolution.annotate collapse.blocks
  let ordered := processor.strategy.reorder processor.cap annotated
  let forward := (ForwardReference.names ordered.blocks).names
  let written := { source with blocks := ordered.blocks }.toText forward
  { text := written
    changed := written != text
    summary := {
      strategy := processor.strategy.key
      blocksIn := source.blocks.length.toUInt64
      blocksOut := ordered.blocks.length.toUInt64
      collapsed := collapse.collapsed
      dropped := collapse.dropped
      constrained := processor.constrained source.blocks
      moves := moves annotated ordered.blocks
      forwardReferences := forward
      passes := ordered.passes.toUInt64
      converged := ordered.converged } }

end Processor

/-- Process the text of a module as chosen. -/
def process (choices : Choices) (text : String) : Except ChoiceError Outcome :=
  (Processor.ofChoices choices).map (·.process text)

end DeclOrder
