import DeclOrder.Block

/-!
# Version constraints

Every declaration of a generated module must agree on one format of the version field. A
constraint names the field and the pattern, and puts its own annotation in the place of the
field's wherever a body declares it, keeping a default value. The pattern is written into a raw
string in single quotes, so it has none itself.
-/

namespace DeclOrder

/-- Why a version pattern is refused. -/
inductive PatternRefusal where
  /-- The pattern has a single quote. -/
  | quoted
  /-- The pattern is empty. -/
  | empty
  deriving DecidableEq, Repr

/-- The wording of a refusal. -/
def PatternRefusal.message : PatternRefusal → String
  | .quoted => "single quotes are not allowed"
  | .empty => "pattern is empty"

/-- A field and the pattern that its values match. -/
structure VersionConstraint where
  /-- The name of the version field. -/
  field : String := "oscal_version"
  /-- The pattern of its values. -/
  pattern : String := "^1\\.[0-9]+\\.[0-9]+$"
  /-- The pattern can stand between single quotes. -/
  unquoted : '\x27' ∉ pattern.toList := by decide
  /-- The pattern says something. -/
  nonempty : pattern ≠ "" := by decide
  deriving DecidableEq

namespace VersionConstraint

/-- The constraint of a field by a pattern; a quote is reported before anything else. -/
def ofPattern (field pattern : String) : Except PatternRefusal VersionConstraint :=
  if quoted : '\x27' ∈ pattern.toList then .error .quoted
  else if empty : pattern = "" then .error .empty
  else .ok { field, pattern, unquoted := quoted, nonempty := empty }

/-- The annotation that takes the place of the field's own. -/
def annotation (constraint : VersionConstraint) : String :=
  "constr(regex=r'" ++ constraint.pattern ++ "')"

/-- The character opens a quoted text. -/
def isQuote (char : Char) : Bool := char == '\x27' || char == '"'

/-- What follows the first equals sign outside brackets and quotes, where `depth` brackets and
possibly a quote are open. The depth is counted in thirty-two bits and wraps around. -/
def default? (depth : Int32) (quote : Option Char) : List Char → Option (List Char)
  | [] => none
  | char :: rest =>
    match quote with
    | some opened => default? depth (if char = opened then none else some opened) rest
    | none =>
      if isQuote char then default? depth (some char) rest
      else if ['(', '[', '\x7b'].contains char then default? (depth + 1) none rest
      else if [')', ']', '\x7d'].contains char then default? (depth - 1) none rest
      else if char = '=' ∧ depth = 0 then some rest
      else default? depth none rest

/-- The line with the annotation of the version field replaced, if it declares that field. The
indentation stays, and a default is written back after ` = `. -/
def constrainLine? (constraint : VersionConstraint) (line : String) : Option String := do
  let indent := line.toList.takeWhile Text.isBlank
  let named ← Text.after? constraint.field.toList (line.toList.dropWhile Text.isBlank)
  let annotated ← Text.after? [':'] (named.dropWhile Text.isBlank)
  let tail := match default? 0 none annotated with
    | some value => " = ".toList ++ Text.trim value
    | none => []
  return String.ofList <|
    indent ++ constraint.field.toList ++ ": ".toList ++ constraint.annotation.toList ++ tail

/-- The block with the version field constrained on every line after the signature. -/
def apply (constraint : VersionConstraint) (block : Block) : Block :=
  let constrained := block.body.map fun line => (constraint.constrainLine? line).getD line
  { block with lines := block.lines.take 1 ++ constrained }

/-- The constraint changes some line of the block. -/
def changes (constraint : VersionConstraint) (block : Block) : Bool :=
  (constraint.apply block).lines != block.lines

end VersionConstraint

end DeclOrder
