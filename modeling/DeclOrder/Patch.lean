import DeclOrder.Patch.Hunk
import DeclOrder.Path

/-!
# Patches

A patch shows how files change: for each file whose texts differ its path and the hunks from the
old text to the new, in the order of the paths.
-/

namespace DeclOrder.Patch

/-- The old and the new text of a file. -/
structure Revision where
  /-- The old text. -/
  old : String
  /-- The new text. -/
  new : String

/-- The part of a patch that shows one file. -/
def filePatch (path : Path) (revision : Revision) : String :=
  if revision.old = revision.new then ""
  else
    "diff --git a/" ++ path.text ++ " b/" ++ path.text ++ "\n" ++
      "--- a/" ++ path.text ++ "\n+++ b/" ++ path.text ++ "\n" ++
      (Difference.ofTexts revision.old revision.new).hunks

/-- The patch of all files. -/
def text (files : PathMap Revision) : String :=
  String.join (files.entries.map fun (path, revision) => filePatch path revision)

end DeclOrder.Patch
