import DeclOrder.Patch.Edit
import DeclOrder.Text.Ends

/-!
# Compaction

Lines that are deleted or inserted next to lines like them can be shifted along without changing
what the edits do. Each such edit is shifted up as far as it goes and then down as far as it goes,
first the deletions and then the insertions; edits of one kind that meet become one, and edits of
different kinds pass each other.
-/

namespace DeclOrder.Patch

/-- An edit and its surroundings. -/
structure Place where
  /-- The edits before it, the nearest first. -/
  before : List Edit
  /-- The edit. -/
  edit : Edit
  /-- The edits after it. -/
  after : List Edit

namespace Place

/-- What is left of a kept run, as an edit unless nothing is. -/
def remainder (lines : List String) (edits : List Edit) : List Edit :=
  if lines.isEmpty then edits else ⟨.keep, lines⟩ :: edits

/-- The edits with lines kept in front of them. -/
def keepInFront (lines : List String) : List Edit → List Edit
  | ⟨.keep, kept⟩ :: edits => ⟨.keep, lines ++ kept⟩ :: edits
  | edits => ⟨.keep, lines⟩ :: edits

/-- The edits, the nearest first, with lines kept behind them. -/
def keepBehind (lines : List String) : List Edit → List Edit
  | ⟨.keep, kept⟩ :: edits => ⟨.keep, kept ++ lines⟩ :: edits
  | edits => ⟨.keep, lines⟩ :: edits

/-- The size of a list of edits: their number and that of their lines. -/
def size (edits : List Edit) : Nat :=
  edits.foldr (fun edit total => edit.lines.length + 1 + total) 0

/-- What is left of a run that loses lines is smaller than the run. -/
theorem size_remainder {lines kept : List String} (edits : List Edit)
    (shorter : lines.length < kept.length) :
    size (remainder lines edits) < size (⟨.keep, kept⟩ :: edits) := by
  unfold remainder
  split <;> simp only [size, List.foldr_cons] <;> omega

/-- Shift an edit up through the edits before it. -/
def shiftUp (before : List Edit) (edit : Edit) (after : List Edit) : Place :=
  match before with
  | [] => ⟨[], edit, after⟩
  | ⟨.keep, kept⟩ :: before =>
    let shared := (Text.commonBack edit.lines kept).length
    if _moves : 0 < shared ∧ 0 < kept.length then
      let stay := edit.lines.length - shared
      shiftUp (remainder (kept.take (kept.length - shared)) before)
        { edit with lines := edit.lines.drop stay ++ edit.lines.take stay }
        (keepInFront (edit.lines.drop stay) after)
    else if kept.isEmpty then shiftUp before edit after
    else ⟨⟨.keep, kept⟩ :: before, edit, after⟩
  | previous :: before =>
    if previous.kind = edit.kind then
      shiftUp before { edit with lines := previous.lines ++ edit.lines } after
    else shiftUp before edit (previous :: after)
  termination_by size before
  decreasing_by
    · exact size_remainder before (by rw [List.length_take]; omega)
    all_goals simp only [size, List.foldr_cons]; omega

/-- Shift an edit down through the edits after it. -/
def shiftDown (before : List Edit) (edit : Edit) (after : List Edit) : Place :=
  match after with
  | [] => ⟨before, edit, []⟩
  | ⟨.keep, kept⟩ :: after =>
    let shared := (Text.commonFront edit.lines kept).length
    if _moves : 0 < shared ∧ 0 < kept.length then
      shiftDown (keepBehind (edit.lines.take shared) before)
        { edit with lines := edit.lines.drop shared ++ edit.lines.take shared }
        (remainder (kept.drop shared) after)
    else if kept.isEmpty then shiftDown before edit after
    else ⟨before, edit, ⟨.keep, kept⟩ :: after⟩
  | next :: after =>
    if next.kind = edit.kind then
      shiftDown before { edit with lines := edit.lines ++ next.lines } after
    else shiftDown (next :: before) edit after
  termination_by size after
  decreasing_by
    · exact size_remainder after (by rw [List.length_drop]; omega)
    all_goals simp only [size, List.foldr_cons]; omega

/-- Shift the next so many edits of a kind, where those of the kind before `after` are settled. -/
def settle (kind : EditKind) (before after : List Edit) : Nat → List Edit
  | 0 => before.reverse ++ after
  | count + 1 =>
    match after.span (·.kind != kind) with
    | (_, []) => before.reverse ++ after
    | (others, edit :: rest) =>
      let up := shiftUp (others.reverse ++ before) edit rest
      let place := shiftDown up.before up.edit up.after
      settle kind (place.edit :: place.before) place.after count

end Place

/-- The edits with those of a kind shifted. -/
def settle (kind : EditKind) (edits : List Edit) : List Edit :=
  Place.settle kind [] edits (edits.countP (·.kind == kind))

/-- The edits with all deletions and then all insertions shifted. -/
def compact (edits : List Edit) : List Edit := settle .insert (settle .delete edits)

end DeclOrder.Patch
