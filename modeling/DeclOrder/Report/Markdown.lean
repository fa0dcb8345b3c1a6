import DeclOrder.Report

/-!
# Reports as Markdown

The report for people: the totals as a list, then a section for each module.
-/

namespace DeclOrder

/-- A line of text. -/
def textLine (text : String) : String := text ++ "\n"

/-- A line with the names of a list after a label, left out where there are none. -/
def namesLine (label : String) (names : List String) : String :=
  if names.isEmpty then "" else textLine ("- " ++ label ++ ": " ++ ", ".intercalate names)

/-- The lines of a summary. -/
def Summary.toMarkdown (summary : Summary) : String :=
  textLine s!"- Blocks: {summary.blocksIn} → {summary.blocksOut}" ++
  textLine (s!"- Passes: {summary.passes}" ++
    if summary.converged then "" else " (cap reached)") ++
  (if summary.moves.isEmpty then "" else textLine s!"- Moved: {summary.moves.length}") ++
  namesLine "Forward declarations" summary.forwardReferences ++
  namesLine "Version constrained" summary.constrained ++
  namesLine "Dropped" summary.dropped ++
  if summary.collapsed.isEmpty then ""
  else
    "\n**Collapsed duplicates**\n\n" ++ String.join (summary.collapsed.map fun duplicate =>
      textLine ("- `" ++ duplicate.name ++ "` → `" ++ duplicate.base ++ "`"))

/-- The section of an entry. -/
def Entry.toMarkdown (number : Nat) (entry : Entry) : String :=
  textLine (s!"### {number}. " ++ entry.path) ++ "\n" ++
  textLine ("- Status: `" ++ entry.status.name ++ "`") ++
  (match entry.error with
    | some error => textLine ("- Error: " ++ error)
    | none => "") ++
  (match entry.summary with
    | some summary => summary.toMarkdown
    | none => "") ++
  "\n"

/-- The lines of the totals. -/
def Totals.toMarkdown (totals : Totals) : String :=
  textLine (s!"- Files: {totals.files} (unchanged {totals.unchanged}, " ++
    s!"rewritten {totals.changed}, blocked {totals.blocked}, failed {totals.failed})") ++
  textLine s!"- Forward declarations: {totals.forwardReferences}" ++
  textLine s!"- Collapsed duplicates: {totals.collapsed}" ++
  if 0 < totals.unconverged then
    textLine s!"- Unconverged files: {totals.unconverged} (best-effort order kept)"
  else ""

/-- The text of a report. -/
def Report.toMarkdown (report : Report) : String :=
  "# declfix report\n\n" ++
  textLine ("- Mode: `" ++ report.mode.name ++ "`") ++
  textLine ("- Strategy: `" ++ report.strategy ++ "`") ++
  report.totals.toMarkdown ++
  "\n## Files\n\n" ++
  if report.entries.isEmpty then "_No files processed._\n"
  else
    String.join (report.entries.zipIdx.map fun (entry, place) => entry.toMarkdown (place + 1))

end DeclOrder
