import DeclOrder.Host.Scan
import DeclOrder.Workspace

/-!
# Workspaces on disk

The modules of a workspace on disk are files of a host under the root. A listing scans for files,
names them by their paths under the root and puts them into the order of these paths.
-/

namespace DeclOrder.Host

variable {m : Type → Type} [Monad m]

/-- The path of a file under a root, or its whole path if the root is no part of it. -/
def pathUnder (root path : Path) : Path := (root.after? path).getD path

/-- The failure of a scan for a pattern. -/
def scanFailure (pattern : String) : ScanError → Failure
  | .pattern error => ⟨["glob " ++ pattern], error.message⟩
  | .unreadable place error =>
    ⟨[], "glob error: attempting to read `" ++ place.shown ++ "` resulted in an error: " ++
      error.message⟩
  | .foreign place => ⟨[], "non-utf8 path: " ++ place.shown⟩

/-- The paths under a root of the selected modules. -/
def listUnder (host : Host m) (root : Path) (selection : Selection) :
    m (Except Failure (List Path)) := do
  let pattern := Glob.escape root.text ++ "/" ++ selection.pattern
  match ← host.scan pattern with
  | .error error => return .error (scanFailure pattern error)
  | .ok files =>
    let paths := (files.map (pathUnder root)).filter selection.takesStem
    return .ok (paths.mergeSort fun left right => !right.precedes left)

/-- The text of the module with a path under a root. -/
def readUnder (host : Host m) (root path : Path) : m (Except Failure String) := do
  let whole := root.join path
  return attempting ("read " ++ whole.text) (← host.readText whole)

/-- The workspace under a root. -/
def workspace (host : Host m) (root : Path) : Workspace m where
  root := root
  list := host.listUnder root
  read := host.readUnder root
  write := host.writeText
  makeDirectory path := do
    return attempting ("create_dir_all " ++ path.text) (← host.makeDirectories path)
  now := host.now

end DeclOrder.Host
