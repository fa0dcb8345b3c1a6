import DeclOrder.Patch
import DeclOrder.Process
import DeclOrder.Report.Exchange
import DeclOrder.Report.Markdown
import DeclOrder.Sha256
import DeclOrder.Workspace

/-!
# Runs

A run processes the selected modules of a workspace one at a time and reports what became of each.
What goes wrong with one module is told in its entry and does not stop the run; only choices that
cannot be used and a listing that fails do. A module is written back only if it still has the hash
of the text that was processed, so what others wrote in the meantime is not lost.
-/

namespace DeclOrder

/-- What a run is to do. -/
structure Settings where
  /-- The directory that modules lie in. -/
  root : Path := ⟨"."⟩
  /-- Which modules to process. -/
  selection : Selection := {}
  /-- What to do with modules that would change. -/
  mode : Mode := .fix
  /-- The directory to write the report and the patch into; without one they are not written. -/
  output : Option Path := none
  /-- How to process a module. -/
  choices : Choices := {}

/-- How a run ends that does not succeed. -/
inductive RunError where
  /-- Modules are not in order, or were changed by others. -/
  | policyBlock
  /-- The run failed. -/
  | internal (failure : Failure)
  deriving DecidableEq, Repr

namespace RunError

/-- The exit code of a run that ends so. -/
def exitCode : RunError → UInt8
  | .policyBlock => 2
  | .internal _ => 1

/-- The wording of an end. -/
def message : RunError → String
  | .policyBlock => "policy block"
  | .internal failure => failure.message

end RunError

/-- Why a module was not written back. -/
inductive WriteRefusal where
  /-- It is not what it was when it was read. -/
  | changed
  /-- It could not be read again or written. -/
  | failed (failure : Failure)
  deriving DecidableEq, Repr

namespace WriteRefusal

/-- The status of the module. -/
def status : WriteRefusal → Status
  | .changed => .blocked
  | .failed _ => .failed

/-- The wording of a refusal. -/
def message : WriteRefusal → String
  | .changed => "precondition failed: file changed since it was read"
  | .failed failure => failure.message

end WriteRefusal

/-- What a run found. -/
structure Run where
  /-- The report. -/
  report : Report
  /-- The patch of the modules that were written back, or would be. -/
  patch : String
  deriving DecidableEq

namespace Run

variable {m : Type → Type} [Monad m]

/-- Write a module back if it still has the hash. -/
def writeBack (workspace : Workspace m) (path : Path) (hash text : String) :
    m (Except WriteRefusal Unit) := do
  match ← workspace.read path with
  | .error failure => return .error (.failed failure)
  | .ok current =>
    if Sha256.ofText current = hash then
      let written ← workspace.write (workspace.root.join path) text
      return written.mapError .failed
    else
      return .error .changed

/-- What became of a module that would change, and why it was not written back. -/
def settle (workspace : Workspace m) (mode : Mode) (path : Path) (hash text : String) :
    m (Status × Option String) := do
  if mode.writes then
    match ← writeBack workspace path hash text with
    | .ok () => return (.written, none)
    | .error refusal => return (refusal.status, some refusal.message)
  else
    return (.pending, none)

/-- A module that was processed. -/
structure Processed where
  /-- The path of the module. -/
  path : Path
  /-- Its entry in the report. -/
  entry : Entry
  /-- The texts to be shown in the patch. -/
  revision : Option Patch.Revision

/-- Process one module. -/
def processModule (workspace : Workspace m) (mode : Mode) (processor : Processor) (path : Path) :
    m Processed := do
  match ← workspace.read path with
  | .error failure =>
    let entry := { path := path.text, status := .failed, error := some failure.message }
    return { path, entry, revision := none }
  | .ok text =>
    let hash := Sha256.ofText text
    let outcome := processor.process text
    let entry : Entry := {
      path := path.text, status := .unchanged, hashBefore := some hash, hashAfter := some hash,
      summary := some outcome.summary }
    if outcome.changed then
      let (status, error) ← settle workspace mode path hash outcome.text
      let revision :=
        if status = .written ∨ status = .pending then some ⟨text, outcome.text⟩ else none
      let hashAfter := some (Sha256.ofText outcome.text)
      return { path, entry := { entry with status, error, hashAfter }, revision }
    else
      return { path, entry, revision := none }

/-- The texts to be shown in the patch, by path. A module that was met under several spellings of
one path is shown under the first, as it was met last. -/
def revisions (modules : List Processed) : PathMap Patch.Revision :=
  modules.foldl (fun files done =>
    match done.revision with
    | some revision => files.insert done.path revision
    | none => files) {}

/-- Process the selected modules of a workspace. -/
def perform (settings : Settings) (workspace : Workspace m) (tool : Tool) :
    m (Except RunError Run) := do
  match Processor.ofChoices settings.choices with
  | .error error => return .error (.internal ⟨["configure processor"], error.message⟩)
  | .ok processor =>
    match ← workspace.list settings.selection with
    | .error failure =>
      return .error (.internal (failure.within ("list sources under " ++ workspace.root.text)))
    | .ok paths =>
      let started ← workspace.now
      let modules ← paths.mapM (processModule workspace settings.mode processor)
      let ended ← workspace.now
      let report : Report := {
        tool, mode := settings.mode, strategy := processor.strategy.key
        run := { started := some started, ended := some ended }
        entries := modules.map (·.entry) }
      return .ok { report := report.tally, patch := Patch.text (revisions modules) }

/-- The run checked modules that are not in order, or met modules that others changed. -/
def isBlocked (run : Run) : Bool :=
  0 < run.report.totals.blocked || (run.report.mode == .check && 0 < run.report.totals.changed)

/-- The files that keep what a run found, by their names. -/
def artifacts (run : Run) : List (String × String) := [
  ("report.json", run.report.toJson.pretty),
  ("report.md", run.report.toMarkdown),
  ("patch.diff", run.patch)]

/-- Write files into a directory until one fails. -/
def writeFiles (workspace : Workspace m) (directory : Path) :
    List (String × String) → m (Except Failure Unit)
  | [] => return .ok ()
  | (name, text) :: rest => do
    match ← workspace.write (directory.join ⟨name⟩) text with
    | .error failure => return .error failure
    | .ok () => writeFiles workspace directory rest

/-- Write what a run found into a directory, which is made if need be. -/
def writeArtifacts (workspace : Workspace m) (directory : Path) (run : Run) :
    m (Except Failure Unit) := do
  match ← workspace.makeDirectory directory with
  | .error failure => return .error failure
  | .ok () => writeFiles workspace directory run.artifacts

end Run

end DeclOrder
