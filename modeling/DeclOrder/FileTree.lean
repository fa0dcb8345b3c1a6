import DeclOrder.Host

/-!
# File trees

A tree of directories and files, given by what lies at each of its locations. A location is the
list of names on the way from the top, which is a directory. A path leads to a location one segment
at a time, from the top if it starts with a slash and otherwise from the directory that programs run
in; every segment but the last has to lead to a directory, and so has the last if a slash follows
it. Names and paths have limits on their octets. What lies where a name on the way is no text cannot
be led to by a path, only by a scan, and a directory can refuse to be read. `FileTree.host` is the
host of such a tree.
-/

namespace DeclOrder

/-- What lies at a location. -/
inductive Node where
  /-- A directory. -/
  | directory
  /-- A file with its octets. -/
  | file (octets : ByteArray)

/-- The kind of what lies at a location. -/
def Node.kind : Node → EntryKind
  | .directory => .directory
  | .file _ => .file

/-- The names on the way from the top. -/
abbrev Location := List String

/-- A tree of directories and files. -/
structure FileTree where
  /-- What lies at each location below the top. -/
  nodes : List (Location × Node) := []
  /-- The directory that programs run in. -/
  current : Location := []
  /-- What lies where the names on the way from the top are not all texts. -/
  foreign : List (ForeignNames × Node) := []
  /-- The directories that cannot be read, by the names on the way from the top, and why. -/
  unreadable : List (List EntryName × SystemError) := []

namespace FileTree

/-- What lies at a location. -/
def node? (tree : FileTree) (location : Location) : Option Node :=
  if location.isEmpty then some .directory else tree.nodes.lookup location

/-- The tree with something put at a location. -/
def put (tree : FileTree) (location : Location) (node : Node) : FileTree :=
  { tree with nodes := (location, node) :: tree.nodes.filter (·.1 != location) }

/-- A directory lies at the location. -/
def expectDirectory (tree : FileTree) (location : Location) : Except SystemError Location :=
  match tree.node? location with
  | none => .error .notFound
  | some (.file _) => .error .notADirectory
  | some .directory => .ok location

/-- The greatest number of octets in a name. -/
def nameLimit : Nat := 255

/-- The number of octets that every path stays below. -/
def pathLimit : Nat := 4096

/-- The location of the entry of a name in a directory, whether or not anything is there. -/
def entryAt (directory : Location) (name : String) : Except SystemError Location :=
  if nameLimit < name.utf8ByteSize then .error .nameTooLong else .ok (directory ++ [name])

/-- The location that one segment leads to from a directory, whether or not anything is there. -/
def step (directory : Location) (segment : String) : Except SystemError Location :=
  if Path.isIdle segment then .ok directory
  else if segment = ".." then .ok directory.dropLast
  else entryAt directory segment

/-- The location that segments lead to, whether or not anything is there. -/
def walk (tree : FileTree) : Location → List String → Except SystemError Location
  | location, [] => .ok location
  | location, segment :: rest => do
    let directory ← tree.expectDirectory location
    tree.walk (← step directory segment) rest

/-- Where a path starts. -/
def start (tree : FileTree) (path : Path) : Location :=
  if path.isAbsolute then [] else tree.current

/-- The system takes the path. -/
def expectPath (path : Path) : Except SystemError Unit :=
  if path.text.toList.contains '\x00' then .error .nulInPath
  else if path.text.isEmpty then .error .notFound
  else if pathLimit ≤ path.text.utf8ByteSize then .error .nameTooLong
  else .ok ()

/-- What a path leads to. -/
def resolve (tree : FileTree) (path : Path) : Except SystemError (Location × Node) := do
  expectPath path
  let location ← tree.walk (tree.start path) path.segments
  match tree.node? location with
  | some node => return (location, node)
  | none => throw .notFound

/-- The directory in which a path names an entry and the entry's name, and whether a slash follows
it. Without a name the path leads to a directory by itself. -/
def entryOf (tree : FileTree) (path : Path) :
    Except SystemError (Location × Option String × Bool) := do
  expectPath path
  let segments := Text.dropTailWhile (·.isEmpty) path.segments
  let closed := segments.length < path.segments.length
  let directory ← tree.walk (tree.start path) segments.dropLast
  let directory ← tree.expectDirectory directory
  match segments.getLast? with
  | some name => return (directory, if Path.isIdle name || name == ".." then none else name, closed)
  | none => return (directory, none, closed)

/-- Put octets into the file that a path leads to, which is made if it is not there. -/
def writeFile (tree : FileTree) (path : Path) (octets : ByteArray) :
    Except SystemError FileTree := do
  match ← tree.entryOf path with
  | (directory, some name, false) =>
    let location ← entryAt directory name
    match tree.node? location with
    | some .directory => throw .isADirectory
    | _ => return tree.put location (.file octets)
  | _ => throw .isADirectory

/-- Make the directory that a path leads to. -/
def makeDirectory (tree : FileTree) (path : Path) : Except SystemError FileTree := do
  match ← tree.entryOf path with
  | (directory, some name, _) =>
    let location ← entryAt directory name
    match tree.node? location with
    | some _ => throw .alreadyExists
    | none => return tree.put location .directory
  | (_, none, _) => throw .alreadyExists

/-- The octets of the file that a path leads to. -/
def readFile (tree : FileTree) (path : Path) : Except SystemError ByteArray := do
  match ← tree.resolve path with
  | (_, .file octets) => return octets
  | (_, .directory) => throw .isADirectory

/-- What a list has below a location, with the names on the way from there. -/
def listedBelow {α : Type} [DecidableEq α] (location : List α) (nodes : List (List α × Node)) :
    List (List α × Node) :=
  nodes.filterMap fun (whole, node) =>
    match Text.after? location whole with
    | some (name :: rest) => some (name :: rest, node)
    | _ => none

/-- What lies below a location, with the names on the way from there. -/
def below (tree : FileTree) (location : Location) : List (List String × Node) :=
  listedBelow location tree.nodes

/-- What lies at the end of names from the top. -/
def nodeAt? (tree : FileTree) (names : List EntryName) : Option Node :=
  match decoded : EntryName.texts? names with
  | some location => tree.node? location
  | none => tree.foreign.lookup ⟨names, decoded⟩

/-- Where names lead to, also over `.` and `..`, whether or not anything is there. -/
def follow (tree : FileTree) :
    List EntryName → List EntryName → Except SystemError (List EntryName)
  | location, [] => .ok location
  | location, name :: rest =>
    match tree.nodeAt? location with
    | none => .error .notFound
    | some (.file _) => .error .notADirectory
    | some .directory =>
      if name = .text "." then tree.follow location rest
      else if name = .text ".." then tree.follow location.dropLast rest
      else tree.follow (location ++ [name]) rest

/-- What lies at a place, and the names on the way from the top. -/
def locate (tree : FileTree) (place : Place) : Except SystemError (List EntryName × Node) := do
  match place with
  | .text path =>
    let (location, node) ← tree.resolve path
    return (location.map .text, node)
  | .foreign base names =>
    if pathLimit ≤ place.size then throw .nameTooLong
    let (location, _) ← tree.resolve base
    let found ← tree.follow (location.map .text) names.1
    match tree.nodeAt? found with
    | some node => return (found, node)
    | none => throw .notFound

/-- What lies at all locations, by the names on the way from the top. -/
def contents (tree : FileTree) : List (List EntryName × Node) :=
  (tree.nodes.map fun (location, node) => (location.map .text, node)) ++
    tree.foreign.map fun (names, node) => (names.1, node)

/-- The list with something put into it, in the order of the names. -/
def insertByNames (item : List EntryName × Node) :
    List (List EntryName × Node) → List (List EntryName × Node)
  | [] => [item]
  | first :: rest =>
    if EntryName.rowPrecedes item.1 first.1 then item :: first :: rest
    else first :: insertByNames item rest

/-- What lies below the end of names from the top, in the order of the names on the way from
there. -/
def inside (tree : FileTree) (location : List EntryName) : List (List EntryName × Node) :=
  (listedBelow location tree.contents).foldr insertByNames []

/-- Why the directory at a place cannot be read, if it cannot. -/
def obstacle? (tree : FileTree) (place : Place) (location : List EntryName) : Option SystemError :=
  if pathLimit ≤ place.size then some .nameTooLong else tree.unreadable.lookup location

/-- The directory at a place, by the names on the way from the top. -/
def directoryAt (tree : FileTree) (place : Place) : Except SystemError (List EntryName) := do
  match ← tree.locate place with
  | (location, .directory) => return location
  | (_, .file _) => throw .notADirectory

/-- The entries of the directory at a place. -/
def entries (tree : FileTree) (place : Place) :
    Except SystemError (List (EntryName × EntryKind)) := do
  let location ← tree.directoryAt place
  match tree.obstacle? place location with
  | some error => throw error
  | none => return (tree.inside location).filterMap fun (names, node) =>
      match names with
      | [name] => some (name, node.kind)
      | _ => none

/-- What a walk through the directory at a place meets. -/
def descendants (tree : FileTree) (place : Place) : List Visit :=
  match tree.directoryAt place with
  | .error error => [.unreadable [] error]
  | .ok location =>
    let obstacle? (names : List EntryName) := tree.obstacle? (place.enter names) (location ++ names)
    let refusals (names : List EntryName) := (obstacle? names).toList.map (.unreadable names)
    let visible (names : List EntryName) :=
      (List.range names.length).all fun count => (obstacle? (names.take count)).isNone
    refusals [] ++ (tree.inside location).flatMap fun (names, node) =>
      if visible names then
        .entry names node.kind :: if node.kind = .directory then refusals names else []
      else []

/-- Replace the tree by what an operation makes of it, if that succeeds. -/
def update (operation : FileTree → Except SystemError FileTree) :
    StateM FileTree (Except SystemError Unit) := do
  match operation (← get) with
  | .ok tree =>
    set tree
    return .ok ()
  | .error error => return .error error

/-- The host of a tree, in which time stands still. -/
def host : Host (StateM FileTree) where
  kind? place := return ((← get).locate place).toOption.map (·.2.kind)
  entries place := return (← get).entries place
  descendants place := return (← get).descendants place
  read path := return (← get).readFile path
  write path octets := update (·.writeFile path octets)
  makeDirectory path := update (·.makeDirectory path)
  now := return Timestamp.epoch

end FileTree

end DeclOrder
