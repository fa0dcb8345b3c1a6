import DeclOrder.Patch.Comparison
import DeclOrder.Patch.Compaction

/-!
# Hunks

The unified form of the edits from one text to another. Deletions and insertions that touch are
one change; changes that are near each other share a hunk, which shows up to three lines before,
after and between them. Lines keep their line feeds, and a last line without one is marked.
-/

namespace DeclOrder.Patch

/-- The lines of a text with their line feeds. -/
def fullLines (text : String) : List String :=
  let pieces := text.toList.splitOn '\n'
  let ended := pieces.dropLast.map (· ++ ['\n'])
  let last := pieces.getLast?.toList.filter (!·.isEmpty)
  (ended ++ last).map String.ofList

/-- Lines that take the place of others. -/
structure Change where
  /-- The number of old lines before it. -/
  oldStart : Nat
  /-- The number of new lines before it. -/
  newStart : Nat
  /-- The old lines. -/
  deleted : List String
  /-- The new lines. -/
  inserted : List String

namespace Change

/-- The number of old lines up to its end. -/
def oldStop (change : Change) : Nat := change.oldStart + change.deleted.length

/-- The number of new lines up to its end. -/
def newStop (change : Change) : Nat := change.newStart + change.inserted.length

/-- The changes that edits make, the last of which is `pending`. -/
def following (pending : Change) : List Edit → List Change
  | [] => [pending]
  | ⟨.delete, lines⟩ :: edits =>
    following { pending with deleted := pending.deleted ++ lines } edits
  | ⟨.insert, lines⟩ :: edits =>
    following { pending with inserted := pending.inserted ++ lines } edits
  | ⟨.keep, lines⟩ :: edits =>
    let oldStart := pending.oldStop + lines.length
    let newStart := pending.newStop + lines.length
    pending :: following ⟨oldStart, newStart, [], []⟩ edits

/-- The changes that edits make. -/
def ofEdits (edits : List Edit) : List Change :=
  (following ⟨0, 0, [], []⟩ edits).filter fun change =>
    !(change.deleted.isEmpty && change.inserted.isEmpty)

end Change

/-- The number of lines shown around changes. -/
def contextSize : Nat := 3

/-- Lines of a patch. -/
def rows (sign : Char) (lines : List String) : String :=
  String.join <| lines.map fun line =>
    if sign = ' ' ∧ line = "\n" then line
    else
      let row := String.ofList [sign] ++ line
      if line.endsWith "\n" then row else row ++ "\n\\ No newline at end of file\n"

/-- The place of lines in a text: the number of the first, or of the line before where there are
none, and how many they are unless there is one. -/
def rangeText (before count : Nat) : String :=
  if count = 0 then s!"{before},0"
  else if count = 1 then s!"{before + 1}"
  else s!"{before + 1},{count}"

/-- Two texts and what lies between them. -/
structure Difference where
  /-- The old lines. -/
  old : List String
  /-- The new lines. -/
  new : List String

namespace Difference

/-- The difference of two texts. -/
def ofTexts (old new : String) : Difference := ⟨fullLines old, fullLines new⟩

/-- The changes from the old lines to the new. -/
def changes (difference : Difference) : List Change :=
  Change.ofEdits (compact (compare difference.old difference.new))

/-- The number of lines shown after a change at the end of a hunk. -/
def trailing (difference : Difference) (change : Change) : Nat :=
  min contextSize
    (min (difference.old.length - change.oldStop) (difference.new.length - change.newStop))

/-- The next change shares the hunk of the one before it. -/
def joins (difference : Difference) (change next : Change) : Bool :=
  min next.oldStart (difference.old.length - 1) - contextSize <
    change.oldStop + difference.trailing change

/-- The new lines between two places, as they are shown between changes. -/
def context (difference : Difference) (start stop : Nat) : String :=
  rows ' ' ((difference.new.drop start).take (stop - start))

/-- The rows of changes that share a hunk, from the first to the lines after the last. -/
def body (difference : Difference) : List Change → String
  | [] => ""
  | change :: rest =>
    let stop := match rest with
      | next :: _ => next.newStart
      | [] => change.newStop + difference.trailing change
    rows '-' change.deleted ++ rows '+' change.inserted ++
      difference.context change.newStop stop ++ difference.body rest

/-- The hunk of changes that share one. -/
def hunk (difference : Difference) (changes : List Change) : String :=
  match changes.head?, changes.getLast? with
  | some first, some last =>
    let oldStart := first.oldStart - contextSize
    let newStart := first.newStart - contextSize
    let oldStop := last.oldStop + difference.trailing last
    let newStop := last.newStop + difference.trailing last
    "@@ -" ++ rangeText oldStart (oldStop - oldStart) ++ " +" ++
      rangeText newStart (newStop - newStart) ++ " @@\n" ++
      difference.context newStart first.newStart ++ difference.body changes
  | _, _ => ""

/-- All hunks in order. -/
def hunks (difference : Difference) : String :=
  String.join ((difference.changes.splitBy difference.joins).map difference.hunk)

end Difference

end DeclOrder.Patch
