import DeclOrder.Command.Arguments
import DeclOrder.Command.Help
import DeclOrder.Configuration
import DeclOrder.Host.Disk

/-!
# The command line

The program has a command that fixes modules, one that checks them, and one that lists the
strategies. `Command.ofArguments?` reads a command off the arguments, and `Command.run` runs it on a
host: a run loads the configuration of the root, processes the modules, writes the report if that is
asked for, prints the patch unless it wrote it, and sums up. A check ends with the exit code 2 if a
module is not in order, every failure with 1.
-/

namespace DeclOrder

/-- How strategies are listed. -/
inductive ListingFormat where
  /-- As a table. -/
  | text
  /-- As JSON. -/
  | json
  deriving DecidableEq, Repr

/-- What the program is asked to do. -/
inductive Command where
  /-- Process the modules of a root. -/
  | process (root : Path) (mode : Mode) (overrides : Overrides)
  /-- List the strategies. -/
  | strategies (format : ListingFormat)
  /-- Tell the version. -/
  | version
  /-- Explain something. -/
  | help (text : String)
  deriving DecidableEq, Repr

/-- What a command leads to. -/
structure Response where
  /-- The exit code. -/
  exitCode : UInt8 := 0
  /-- What is written to the output. -/
  output : String := ""
  /-- What is written for the user beside the output. -/
  notes : String := ""
  deriving DecidableEq, Repr

/-- The format of a name. -/
def ListingFormat.ofName? (name : String) : Option ListingFormat :=
  [("text", ListingFormat.text), ("json", .json)].lookup name

/-- The response, ended by an error if there is one. A policy block says nothing more. -/
def Response.ended (response : Response) : Except RunError Unit → Response
  | .ok () => response
  | .error error =>
    let note := match error with
      | .policyBlock => ""
      | .internal failure => textLine ("error: " ++ failure.message)
    { response with exitCode := error.exitCode, notes := response.notes ++ note }

namespace Command

/-- The tool that runs commands. -/
def tool : Tool := { name := "declfix", version := some "0.1.0" }

/-- Read a number of sixty-four bits; a plus sign and zeros may precede it. -/
def word? (text : String) : Option UInt64 :=
  let chars := (Text.after? ['+'] text.toList).getD text.toList
  let value := Timestamp.ofDigits chars
  if !chars.isEmpty && chars.all Char.isDigit && value < UInt64.size then some (UInt64.ofNat value)
  else none

/-- The options that every command understands. -/
def commonForms : List OptionForm := [
  { name := "verbose", letter := some 'v', kind := .flag },
  { name := "help", letter := some 'h', kind := .request }]

/-- The options before a command. -/
def programForms : List OptionForm :=
  commonForms ++ [{ name := "version", letter := some 'V', kind := .request }]

/-- The value may be anything. -/
def anyText (_ : String) : Bool := true

/-- The options that choose modules and how to process them. -/
def selectionForms : List OptionForm := commonForms ++ [
  { name := "root", kind := .value anyText },
  { name := "stem", kind := .values },
  { name := "pattern", kind := .value anyText },
  { name := "strategy", kind := .value anyText },
  { name := "max-passes", kind := .value fun text => (word? text).isSome },
  { name := "no-version-constraint", kind := .flag },
  { name := "out-dir", kind := .value anyText }]

/-- The command to process modules with the given options. -/
def ofSelection (mode : Mode) (given : GivenOptions) : Command :=
  .process ⟨(given.lookup "root").getD "."⟩ mode {
    stems := Arguments.valuesOf given "stem"
    pattern := given.lookup "pattern"
    strategy := given.lookup "strategy"
    maxPasses := (given.lookup "max-passes").bind word?
    output := (given.lookup "out-dir").map Path.mk
    keepsVersion := (given.lookup "no-version-constraint").isSome }

/-- Read the arguments after a command that has nothing but options. -/
def ofOptions? (forms : List OptionForm) (help : String) (command : GivenOptions → Command)
    (arguments : List String) : Option Command :=
  match Arguments.read? forms [] arguments with
  | some (.options given []) => some (command given)
  | some (.request _) => some (.help help)
  | _ => none

/-- Read the arguments from the name of a command on. -/
def ofName? (name : String) (arguments : List String) : Option Command :=
  match name with
  | "fix" =>
    ofOptions? (selectionForms ++ [{ name := "dry-run", kind := .flag }]) Help.fix
      (fun given => ofSelection (if (given.lookup "dry-run").isSome then .dryRun else .fix) given)
      arguments
  | "check" => ofOptions? selectionForms Help.check (ofSelection .check) arguments
  | "strategies" =>
    let accepts := fun text => (ListingFormat.ofName? text).isSome
    ofOptions? (commonForms ++ [{ name := "format", kind := .value accepts }]) Help.strategies
      (fun given => .strategies (((given.lookup "format").bind ListingFormat.ofName?).getD .text))
      arguments
  | "help" =>
    match arguments with
    | [] => some (.help Help.overview)
    | [topic] => (Help.topic? topic).map .help
    | _ => none
  | _ => none

/-- The command that arguments ask for, unless they are refused. -/
def ofArguments? (arguments : List String) : Option Command :=
  match Arguments.read? programForms [] arguments with
  | some (.options _ (name :: rest)) => ofName? name rest
  | some (.request "version") => some .version
  | some (.request _) => some (.help Help.overview)
  | _ => none

/-- A text filled up with spaces to the width of a column. -/
def column (text : String) : String :=
  text ++ String.ofList (List.replicate (10 - text.length) ' ')

/-- A line of the table of strategies. -/
def tableLine (key converges description : String) : String :=
  textLine ("  " ++ column key ++ " " ++ column converges ++ " " ++ description)

/-- The list of strategies. -/
def strategyListing : ListingFormat → String
  | .text =>
    "Available strategies:\n\n" ++ tableLine "KEY" "CONVERGES" "DESCRIPTION" ++
      tableLine "---" "---------" "-----------" ++
      String.join (Order.Strategy.all.map fun strategy =>
        tableLine strategy.key (if strategy.converges then "yes" else "no") strategy.description)
  | .json =>
    textLine <| Json.pretty <| .array <| Order.Strategy.all.map fun strategy =>
      .object [("converges", .boolean strategy.converges),
        ("description", .string strategy.description), ("key", .string strategy.key)]

/-- The lines that sum up a run. -/
def summaryLines (run : Run) : String :=
  let totals := run.report.totals
  let verb := if run.report.mode = .fix then "rewritten" else "would be rewritten"
  textLine (s!"declfix: {totals.changed} of {totals.files} file(s) " ++ verb ++
    s!" ({totals.forwardReferences} forward declaration(s), " ++
    s!"{totals.collapsed} duplicate(s) collapsed)") ++
  (if 0 < totals.unconverged then
    textLine (s!"declfix: {totals.unconverged} file(s) hit the pass cap; " ++
      "best-effort order kept")
  else "") ++
  if 0 < totals.blocked then
    textLine (s!"declfix: {totals.blocked} file(s) changed on disk during the run; " ++
      "not written")
  else ""

/-- How a finished run ends. -/
def verdict (run : Run) : Except RunError Unit :=
  let failed := run.report.totals.failed
  if 0 < failed then
    .error (.internal ⟨[], s!"{failed} file(s) failed; see log for details"⟩)
  else if run.isBlocked then .error .policyBlock
  else .ok ()

/-- The response to a run that failed before it could say anything. -/
def failed (failure : Failure) : Response := Response.ended {} (.error (.internal failure))

/-- The response to a finished run. -/
def report (run : Run) : Response :=
  let output := if run.report.mode.writes then "" else run.patch
  Response.ended { output, notes := summaryLines run } (verdict run)

variable {m : Type → Type} [Monad m]

/-- Write the report and the patch of a run if that is asked for. -/
def keep (workspace : Workspace m) (output : Option Path) (run : Run) :
    m (Except Failure Unit) := do
  match output with
  | none => return .ok ()
  | some directory =>
    let written ← run.writeArtifacts workspace directory
    return attempting ("write artifacts to " ++ directory.text) written

/-- Perform a run with the settings. -/
def perform (host : Host m) (settings : Settings) : m Response := do
  let workspace := host.workspace settings.root
  match ← Run.perform settings workspace tool with
  | .error error => return Response.ended {} (.error error)
  | .ok run =>
    match ← keep workspace settings.output run with
    | .error failure => return failed failure
    | .ok () => return report run

/-- The settings of a run on the modules of a root. -/
def settings (host : Host m) (root : Path) (mode : Mode) (overrides : Overrides) :
    m (Except Failure Settings) := do
  match attempting "load declfix.toml config" (← Configuration.loadOrDefault host root) with
  | .error failure => return .error failure
  | .ok configuration => return configuration.merge root mode overrides

/-- Run a command. -/
def run (host : Host m) : Command → m Response
  | .process root mode overrides => do
    match ← settings host root mode overrides with
    | .error failure => return failed failure
    | .ok settings => perform host settings
  | .strategies format => return { output := strategyListing format }
  | .version => return { output := textLine (tool.name ++ " " ++ tool.version.getD "") }
  | .help text => return { output := text }

end Command

end DeclOrder
