import DeclOrder.Host
import DeclOrder.Run
import DeclOrder.Toml.Reader

/-!
# Configuration files

The file `declfix.toml` in the root of a workspace says how its modules are to be processed. Every
setting has a default; one that is not known is refused. A section is a table of its settings, or
the list of their values in order. What is asked for in a run goes before what the file says.
-/

namespace DeclOrder

/-- What a configuration file says. -/
structure Configuration where
  /-- The stems of the modules to process; none selects all. -/
  stems : List String := []
  /-- The glob pattern of the modules under the root. -/
  pattern : String := ({} : Selection).pattern
  /-- The key of the strategy. -/
  strategy : String := ({} : Choices).strategy
  /-- The cap on repair passes. -/
  maxPasses : UInt64 := ({} : Choices).maxPasses
  /-- Version fields are to be constrained. -/
  constrainsVersion : Bool := true
  /-- The name of the version field. -/
  versionField : String := ({} : VersionConstraint).field
  /-- The pattern of its values. -/
  versionPattern : String := ({} : VersionConstraint).pattern
  /-- The name of the declaration that stands for a built-in type, or nothing. -/
  builtin : String := "Base64"
  deriving DecidableEq, Repr

/-- What is asked for in a run. -/
structure Overrides where
  /-- Further stems. -/
  stems : List String := []
  /-- The glob pattern of the modules. -/
  pattern : Option String := none
  /-- The key of the strategy. -/
  strategy : Option String := none
  /-- The cap on repair passes. -/
  maxPasses : Option UInt64 := none
  /-- The directory to write the report and the patch into. -/
  output : Option Path := none
  /-- Version fields are to stay as they are. -/
  keepsVersion : Bool := false
  deriving DecidableEq, Repr

namespace Configuration

/-- The name of configuration files. -/
def fileName : String := "declfix.toml"

/-- Read a text. -/
def text? : Toml → Option String
  | .string value => some value
  | _ => none

/-- Read a list of texts. -/
def texts? : Toml → Option (List String)
  | .array items => items.mapM text?
  | _ => none

/-- Read a number of sixty-four bits. -/
def word? : Toml → Option UInt64
  | .integer value =>
    if 0 ≤ value ∧ value < UInt64.size then some (UInt64.ofNat value.toNat) else none
  | _ => none

/-- Read a truth value. -/
def truth? : Toml → Option Bool
  | .boolean value => some value
  | _ => none

/-- The fields, if all of their names are known. -/
def known? (names : List String) (fields : Toml.Fields) : Option Toml.Fields :=
  if fields.all fun field => names.contains field.1 then some fields else none

/-- The settings of a section that has the names; it has none where it is left out. -/
def settings? (sections : Toml.Fields) (name : String) (names : List String) :
    Option Toml.Fields :=
  match sections.lookup name with
  | none => some []
  | some (.table _ fields) => known? names fields
  | some (.array items) => some (names.zip items)
  | some _ => none

/-- The value of a setting. -/
def setting? {α : Type} (fields : Toml.Fields) (name : String) (default : α)
    (value? : Toml → Option α) : Option α :=
  match fields.lookup name with
  | some value => value? value
  | none => some default

/-- The configuration that a text holds. -/
def ofText? (text : String) : Option Configuration := do
  let sections ← known? ["files", "reorder", "rewrite"] (← Toml.ofText? text)
  let files ← settings? sections "files" ["stems", "pattern"]
  let reorder ← settings? sections "reorder" ["strategy", "max_passes"]
  let content ← settings? sections "rewrite"
    ["constrain_version", "version_field", "version_pattern", "binary_type"]
  let default : Configuration := {}
  let stems ← setting? files "stems" default.stems texts?
  let pattern ← setting? files "pattern" default.pattern text?
  let strategy ← setting? reorder "strategy" default.strategy text?
  let maxPasses ← setting? reorder "max_passes" default.maxPasses word?
  let constrainsVersion ←
    setting? content "constrain_version" default.constrainsVersion truth?
  let versionField ← setting? content "version_field" default.versionField text?
  let versionPattern ← setting? content "version_pattern" default.versionPattern text?
  let builtin ← setting? content "binary_type" default.builtin text?
  return { stems, pattern, strategy, maxPasses, constrainsVersion, versionField, versionPattern,
           builtin }

/-- The configuration that a text holds, or the failure to read one. -/
def ofText (text : String) : Except Failure Configuration :=
  match ofText? text with
  | some configuration => .ok configuration
  | none => .error ⟨[], "invalid TOML"⟩

/-- Stems with further ones added, each unless it is there. -/
def addStems (stems further : List String) : List String :=
  further.foldl (fun stems stem => if stems.contains stem then stems else stems ++ [stem]) stems

/-- The constraint on version fields, unless they are to stay as they are. -/
def version (configuration : Configuration) (overrides : Overrides) :
    Except Failure (Option VersionConstraint) :=
  if configuration.constrainsVersion && !overrides.keepsVersion then
    match VersionConstraint.ofPattern configuration.versionField configuration.versionPattern with
    | .ok version => .ok (some version)
    | .error refusal =>
      .error ⟨["invalid [rewrite] version settings"],
        (ChoiceError.invalidPattern configuration.versionPattern refusal).message⟩
  else .ok none

/-- The settings of a run. -/
def merge (configuration : Configuration) (root : Path) (mode : Mode) (overrides : Overrides) :
    Except Failure Settings := do
  let version ← configuration.version overrides
  return {
    root
    selection := {
      pattern := overrides.pattern.getD configuration.pattern
      stems := addStems configuration.stems overrides.stems }
    mode
    output := overrides.output
    choices := {
      strategy := overrides.strategy.getD configuration.strategy
      maxPasses := overrides.maxPasses.getD configuration.maxPasses
      version
      builtin := if configuration.builtin.isEmpty then none else some configuration.builtin } }

variable {m : Type → Type} [Monad m]

/-- The path of the configuration file of a root, if there is one. -/
def discover (host : Host m) (root : Path) : m (Option Path) := do
  let path := root.join ⟨fileName⟩
  return if ← host.pathExists path then some path else none

/-- The configuration that a file holds. -/
def load (host : Host m) (path : Path) : m (Except Failure Configuration) := do
  match attempting ("read config file " ++ path.text) (← host.readText path) with
  | .error failure => return .error failure
  | .ok text => return attempting ("parse config file " ++ path.text) (ofText text)

/-- The configuration of a root, which is the default where there is no file. -/
def loadOrDefault (host : Host m) (root : Path) : m (Except Failure Configuration) := do
  match ← discover host root with
  | some path => load host path
  | none => return .ok {}

end Configuration

end DeclOrder
