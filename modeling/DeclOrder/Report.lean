import DeclOrder.Summary
import DeclOrder.Timestamp

/-!
# Reports

The report of a run over many modules: what ran and how, what became of each module, and the
totals, which `Report.tally` takes from the entries.
-/

namespace DeclOrder

/-- The schema of reports. -/
def reportSchema : String := "declfix.report.v1"

/-- The tool that ran. -/
structure Tool where
  /-- Its name. -/
  name : String
  /-- Its version, if known. -/
  version : Option String
  deriving DecidableEq

/-- When a run took place. -/
structure RunTimes where
  /-- When it started. -/
  started : Option Timestamp := none
  /-- When it ended. -/
  ended : Option Timestamp := none
  deriving DecidableEq

/-- What a run does with modules that would change. -/
inductive Mode where
  /-- Write them back. -/
  | fix
  /-- Show what would change. -/
  | dryRun
  /-- Refuse them. -/
  | check
  deriving DecidableEq, Repr

/-- The name of a mode. -/
def Mode.name : Mode → String
  | .fix => "fix"
  | .dryRun => "dry_run"
  | .check => "check"

/-- The mode of a name. -/
def Mode.ofName? (name : String) : Option Mode :=
  [Mode.fix, .dryRun, .check].find? (·.name == name)

/-- The mode writes modules back. -/
def Mode.writes (mode : Mode) : Bool := mode == .fix

/-- What became of a module. -/
inductive Status where
  /-- It is in order already. -/
  | unchanged
  /-- It was written back. -/
  | written
  /-- It would be written back. -/
  | pending
  /-- It was changed by others between reading and writing. -/
  | blocked
  /-- It could not be read or written. -/
  | failed
  deriving DecidableEq, Repr

/-- The name of a status. -/
def Status.name : Status → String
  | .unchanged => "unchanged"
  | .written => "rewritten"
  | .pending => "would_rewrite"
  | .blocked => "blocked"
  | .failed => "failed"

/-- The status of a name. -/
def Status.ofName? (name : String) : Option Status :=
  [Status.unchanged, .written, .pending, .blocked, .failed].find? (·.name == name)

/-- The entry of one module. -/
structure Entry where
  /-- The path of the module under the root. -/
  path : String
  /-- What became of it. -/
  status : Status
  /-- The hash of the text read. -/
  hashBefore : Option String := none
  /-- The hash of the text after processing. -/
  hashAfter : Option String := none
  /-- What processing did. -/
  summary : Option Summary := none
  /-- What went wrong. -/
  error : Option String := none
  deriving DecidableEq

/-- The totals of a report. -/
structure Totals where
  /-- All modules. -/
  files : UInt64 := 0
  /-- Those in order already. -/
  unchanged : UInt64 := 0
  /-- Those written back, or that would be. -/
  changed : UInt64 := 0
  /-- Those changed by others. -/
  blocked : UInt64 := 0
  /-- Those that could not be read or written. -/
  failed : UInt64 := 0
  /-- The forward statements of all modules. -/
  forwardReferences : UInt64 := 0
  /-- The duplicates taken out of all modules. -/
  collapsed : UInt64 := 0
  /-- The modules whose ordering came to its cap. -/
  unconverged : UInt64 := 0
  deriving DecidableEq, Repr

/-- The report of a run. -/
structure Report where
  /-- The schema of the report. -/
  schema : String := reportSchema
  /-- The tool that ran. -/
  tool : Tool
  /-- When it ran. -/
  run : RunTimes := {}
  /-- What it did with modules that would change. -/
  mode : Mode
  /-- The key of its strategy. -/
  strategy : String
  /-- The totals. -/
  totals : Totals := {}
  /-- The entries, in the order of the modules. -/
  entries : List Entry := []
  deriving DecidableEq

/-- The number of the list's elements that satisfy the test. -/
def countOf {α : Type} (test : α → Bool) (elements : List α) : UInt64 :=
  (elements.countP test).toUInt64

/-- The sum of a measure over the summaries of the entries. -/
def summed (measure : Summary → Nat) (entries : List Entry) : UInt64 :=
  let summaries := entries.filterMap (·.summary)
  (summaries.foldr (fun summary total => measure summary + total) 0).toUInt64

/-- The totals over the entries. -/
def Totals.of (entries : List Entry) : Totals where
  files := entries.length.toUInt64
  unchanged := countOf (·.status == .unchanged) entries
  changed := countOf (fun entry =>
    entry.status == .written || entry.status == .pending) entries
  blocked := countOf (·.status == .blocked) entries
  failed := countOf (·.status == .failed) entries
  forwardReferences := summed (·.forwardReferences.length) entries
  collapsed := summed (·.collapsed.length) entries
  unconverged := countOf (fun entry => entry.summary.any (!·.converged)) entries

/-- The report with its totals taken from its entries. -/
def Report.tally (report : Report) : Report := { report with totals := Totals.of report.entries }

end DeclOrder
