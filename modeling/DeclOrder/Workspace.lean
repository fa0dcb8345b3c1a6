import DeclOrder.Failure
import DeclOrder.Glob
import DeclOrder.Path
import DeclOrder.Timestamp

/-!
# Workspaces

The modules of a run lie in a workspace, under its root. A workspace lists the modules of a
selection by their paths under the root, reads them, and writes files by their whole paths. Every
operation can fail and can answer differently each time, in the monad of the workspace.

`Workspace.traced` keeps a record of the reads and writes. A `Collection` holds modules in memory;
`Collection.workspace` is a workspace of it.
-/

namespace DeclOrder

/-- Which modules of a workspace to process. -/
structure Selection where
  /-- The glob pattern of their paths under the root. -/
  pattern : String := "*.py"
  /-- The stems of their names; none selects all. -/
  stems : List String := []
  deriving DecidableEq, Repr

/-- The selection takes paths with the stem of this one. -/
def Selection.takesStem (selection : Selection) (path : Path) : Bool :=
  selection.stems.isEmpty || path.stem?.any selection.stems.contains

/-- A place that modules lie in. -/
structure Workspace (m : Type → Type) where
  /-- The directory that modules lie in. -/
  root : Path
  /-- The paths of the selected modules, in their order. -/
  list : Selection → m (Except Failure (List Path))
  /-- The text of the module with a path. -/
  read : Path → m (Except Failure String)
  /-- Write a file. -/
  write : Path → String → m (Except Failure Unit)
  /-- Make a directory and those it lies in, unless they are there. -/
  makeDirectory : Path → m (Except Failure Unit)
  /-- The time. -/
  now : m Timestamp

/-- What happened in a workspace. -/
inductive Event where
  /-- A module was read. -/
  | read (path : Path) (result : Except Failure String)
  /-- A file was written, if that did not fail. -/
  | write (path : Path) (text : String) (result : Except Failure Unit)
  /-- A directory was made, if that did not fail. -/
  | makeDirectory (path : Path) (result : Except Failure Unit)

/-- The workspace with a record of what happens in it, in order. -/
def Workspace.traced {m : Type → Type} [Monad m] (workspace : Workspace m) :
    Workspace (StateT (List Event) m) where
  root := workspace.root
  list selection := workspace.list selection
  read path := do
    let result ← workspace.read path
    modify (· ++ [.read path result])
    return result
  write path text := do
    let result ← workspace.write path text
    modify (· ++ [.write path text result])
    return result
  makeDirectory path := do
    let result ← workspace.makeDirectory path
    modify (· ++ [.makeDirectory path result])
    return result
  now := workspace.now

/-- Modules held in memory. -/
structure Collection where
  /-- The directory that they lie in. -/
  root : Path
  /-- Their texts by their paths under the root. -/
  files : PathMap String

namespace Collection

/-- The paths of the selected modules. The pattern matches the spelling of a path. -/
def list (collection : Collection) (selection : Selection) : Except Failure (List Path) :=
  match Glob.compile selection.pattern with
  | .error error =>
    .error ⟨["invalid file pattern " ++ selection.pattern], error.message⟩
  | .ok pattern =>
    .ok <| collection.files.paths.filter fun path =>
      Glob.isMatch pattern path.text.toList && selection.takesStem path

/-- The text of the module with a path. -/
def read (collection : Collection) (path : Path) : Except Failure String :=
  match collection.files.get? path with
  | some text => .ok text
  | none => .error ⟨[], "read " ++ path.text⟩

/-- The collection with the text of the module replaced whose whole path is given. -/
def write (collection : Collection) (path : Path) (text : String) : Collection :=
  let replace (entry : Path × String) : Path × String :=
    (entry.1, if collection.root.join entry.1 = path then text else entry.2)
  { collection with files := ⟨collection.files.entries.map replace⟩ }

/-- The workspace of the collection. Files that are no modules of it are written to no effect,
and time stands still. -/
def workspace (root : Path) : Workspace (StateM Collection) where
  root := root
  list selection := return (← get).list selection
  read path := return (← get).read path
  write path text := do
    modify (·.write path text)
    return .ok ()
  makeDirectory _ := return .ok ()
  now := return Timestamp.epoch

end Collection

end DeclOrder
