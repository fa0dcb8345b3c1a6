import DeclOrder.Json
import DeclOrder.Report

/-!
# Reports as JSON values

`Report.toJson` leaves out the fields that hold nothing: absent times, versions, hashes, summaries
and errors, and the empty lists of a summary. `Report.ofJson?` reads them back as holding nothing,
passes over fields it does not know, and takes records as objects or as arrays.
-/

namespace DeclOrder

/-- The field of an optional value, left out where there is none. -/
def optionalField {α : Type} (name : String) (value : Option α) (toJson : α → Json) :
    List (String × Json) :=
  match value with
  | some value => [(name, toJson value)]
  | none => []

/-- The field of a list, left out where it is empty. -/
def listField {α : Type} (name : String) (values : List α) (toJson : α → Json) :
    List (String × Json) :=
  if values.isEmpty then [] else [(name, .array (values.map toJson))]

/-- The value of a tool. -/
def Tool.toJson (tool : Tool) : Json :=
  .object (("name", .string tool.name) :: optionalField "version" tool.version .string)

/-- Read a tool. -/
def Tool.ofJson? (value : Json) : Option Tool := do
  let record ← value.record? 2
  let name ← record.required 0 "name" Json.string?
  let version ← record.optional 1 "version" none (Json.nullable? Json.string?)
  return { name, version }

/-- Read a moment. -/
def Timestamp.ofJson? (value : Json) : Option Timestamp := value.string?.bind Timestamp.ofText?

/-- The value of the times of a run. -/
def RunTimes.toJson (run : RunTimes) : Json :=
  .object <|
    optionalField "started_at" run.started (.string ·.text) ++
      optionalField "ended_at" run.ended (.string ·.text)

/-- Read the times of a run. -/
def RunTimes.ofJson? (value : Json) : Option RunTimes := do
  let record ← value.record? 2
  let started ← record.optional 0 "started_at" none (Json.nullable? Timestamp.ofJson?)
  let ended ← record.optional 1 "ended_at" none (Json.nullable? Timestamp.ofJson?)
  return { started, ended }

/-- The value of the totals. -/
def Totals.toJson (totals : Totals) : Json :=
  .object [
    ("files", .ofWord totals.files),
    ("unchanged", .ofWord totals.unchanged),
    ("rewritten", .ofWord totals.changed),
    ("blocked", .ofWord totals.blocked),
    ("failed", .ofWord totals.failed),
    ("forward_refs", .ofWord totals.forwardReferences),
    ("collapsed", .ofWord totals.collapsed),
    ("unconverged", .ofWord totals.unconverged)]

/-- Read totals. -/
def Totals.ofJson? (value : Json) : Option Totals := do
  let record ← value.record? 8
  let files ← record.required 0 "files" Json.word?
  let unchanged ← record.required 1 "unchanged" Json.word?
  let changed ← record.required 2 "rewritten" Json.word?
  let blocked ← record.required 3 "blocked" Json.word?
  let failed ← record.required 4 "failed" Json.word?
  let forwardReferences ← record.required 5 "forward_refs" Json.word?
  let collapsed ← record.required 6 "collapsed" Json.word?
  let unconverged ← record.required 7 "unconverged" Json.word?
  return { files, unchanged, changed, blocked, failed, forwardReferences, collapsed,
           unconverged }

/-- The value of a duplicate. -/
def Duplicate.toJson (duplicate : Duplicate) : Json :=
  .object [("duplicate", .string duplicate.name), ("base", .string duplicate.base)]

/-- Read a duplicate. -/
def Duplicate.ofJson? (value : Json) : Option Duplicate := do
  let record ← value.record? 2
  let name ← record.required 0 "duplicate" Json.string?
  let base ← record.required 1 "base" Json.string?
  return { name, base }

/-- The value of a move. -/
def Move.toJson (move : Move) : Json :=
  .object [("name", .string move.name), ("from", .ofWord move.source),
    ("to", .ofWord move.target)]

/-- Read a move. -/
def Move.ofJson? (value : Json) : Option Move := do
  let record ← value.record? 3
  let name ← record.required 0 "name" Json.string?
  let source ← record.required 1 "from" Json.word?
  let target ← record.required 2 "to" Json.word?
  return { name, source, target }

/-- The value of a summary. -/
def Summary.toJson (summary : Summary) : Json :=
  .object <|
    [("strategy", .string summary.strategy), ("blocks_in", .ofWord summary.blocksIn),
      ("blocks_out", .ofWord summary.blocksOut)] ++
    listField "collapsed" summary.collapsed Duplicate.toJson ++
    listField "dropped" summary.dropped .string ++
    listField "constrained" summary.constrained .string ++
    listField "moves" summary.moves Move.toJson ++
    listField "forward_refs" summary.forwardReferences .string ++
    [("passes", .ofWord summary.passes), ("converged", .boolean summary.converged)]

/-- Read a summary. -/
def Summary.ofJson? (value : Json) : Option Summary := do
  let record ← value.record? 10
  let strategy ← record.required 0 "strategy" Json.string?
  let blocksIn ← record.required 1 "blocks_in" Json.word?
  let blocksOut ← record.required 2 "blocks_out" Json.word?
  let collapsed ← record.optional 3 "collapsed" [] (Json.list? Duplicate.ofJson?)
  let dropped ← record.optional 4 "dropped" [] (Json.list? Json.string?)
  let constrained ← record.optional 5 "constrained" [] (Json.list? Json.string?)
  let moves ← record.optional 6 "moves" [] (Json.list? Move.ofJson?)
  let forwardReferences ← record.optional 7 "forward_refs" [] (Json.list? Json.string?)
  let passes ← record.required 8 "passes" Json.word?
  let converged ← record.required 9 "converged" Json.boolean?
  return { strategy, blocksIn, blocksOut, collapsed, dropped, constrained, moves,
           forwardReferences, passes, converged }

/-- The value of an entry. -/
def Entry.toJson (entry : Entry) : Json :=
  .object <|
    [("path", .string entry.path), ("status", .string entry.status.name)] ++
    optionalField "sha256_before" entry.hashBefore .string ++
    optionalField "sha256_after" entry.hashAfter .string ++
    optionalField "summary" entry.summary Summary.toJson ++
    optionalField "error" entry.error .string

/-- Read an entry. -/
def Entry.ofJson? (value : Json) : Option Entry := do
  let record ← value.record? 6
  let path ← record.required 0 "path" Json.string?
  let status ← record.required 1 "status" (Json.alternative? Status.ofName?)
  let hashBefore ← record.optional 2 "sha256_before" none (Json.nullable? Json.string?)
  let hashAfter ← record.optional 3 "sha256_after" none (Json.nullable? Json.string?)
  let summary ← record.optional 4 "summary" none (Json.nullable? Summary.ofJson?)
  let error ← record.optional 5 "error" none (Json.nullable? Json.string?)
  return { path, status, hashBefore, hashAfter, summary, error }

/-- The value of a report. -/
def Report.toJson (report : Report) : Json :=
  .object [
    ("schema", .string report.schema),
    ("tool", report.tool.toJson),
    ("run", report.run.toJson),
    ("mode", .string report.mode.name),
    ("strategy", .string report.strategy),
    ("counts", report.totals.toJson),
    ("units", .array (report.entries.map Entry.toJson))]

/-- Read a report. -/
def Report.ofJson? (value : Json) : Option Report := do
  let record ← value.record? 7
  let schema ← record.required 0 "schema" Json.string?
  let tool ← record.required 1 "tool" Tool.ofJson?
  let run ← record.optional 2 "run" {} RunTimes.ofJson?
  let mode ← record.required 3 "mode" (Json.alternative? Mode.ofName?)
  let strategy ← record.required 4 "strategy" Json.string?
  let totals ← record.optional 5 "counts" {} Totals.ofJson?
  let entries ← record.optional 6 "units" [] (Json.list? Entry.ofJson?)
  return { schema, tool, run, mode, strategy, totals, entries }

end DeclOrder
