/-!
# Edits

How one list of lines becomes another, as a list of edits in order: runs of lines that stay, are
deleted or are inserted. The lines that edits keep and delete are the old ones, and the lines that
they keep and insert the new ones.
-/

namespace DeclOrder.Patch

/-- What an edit does with its lines. -/
inductive EditKind where
  /-- They stay. -/
  | keep
  /-- They go. -/
  | delete
  /-- They come. -/
  | insert
  deriving DecidableEq, Repr

/-- One step from the old lines to the new. -/
structure Edit where
  /-- What it does. -/
  kind : EditKind
  /-- The lines it does it with. -/
  lines : List String
  deriving DecidableEq, Repr

namespace Edit

/-- The edit of the kind, unless it has no lines. -/
def some? (kind : EditKind) (lines : List String) : List Edit :=
  if lines.isEmpty then [] else [⟨kind, lines⟩]

end Edit

end DeclOrder.Patch
