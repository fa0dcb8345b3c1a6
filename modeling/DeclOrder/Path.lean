import DeclOrder.Text.Ends

/-!
# Paths

A path keeps its spelling, and its parts are what the spelling means: the root if it starts with a
slash, a leading `.`, every `..`, and the names between slashes. Empty segments and later `.`
segments mean nothing. Paths are told apart and ordered by their parts.
-/

namespace DeclOrder

/-- The spelling of a path. -/
structure Path where
  /-- The characters of the path. -/
  text : String
  deriving DecidableEq, Repr, Inhabited

namespace Path

/-- One meaningful part of a path. -/
inductive Part where
  /-- The root directory. -/
  | root
  /-- The directory itself, at the start of a path. -/
  | here
  /-- The parent directory. -/
  | parent
  /-- An entry of a directory. -/
  | named (name : String)
  deriving DecidableEq, Repr

/-- The spelling between two slashes means nothing. -/
def isIdle (segment : String) : Bool := segment.isEmpty || segment == "."

/-- The part that a segment means after the start of a path. -/
def part? (segment : String) : Option Part :=
  if isIdle segment then none
  else if segment = ".." then some .parent
  else some (.named segment)

/-- The spellings between the slashes. -/
def segments (path : Path) : List String := (path.text.toList.splitOn '/').map String.ofList

/-- The start of a path, if it is the root or the directory itself, and the segments after it. -/
def opening (path : Path) : Option Part × List String :=
  match path.segments with
  | "" :: first :: rest => (some .root, first :: rest)
  | "." :: rest => (some .here, rest)
  | segments => (none, segments)

/-- The parts of a path. -/
def parts (path : Path) : List Part :=
  path.opening.1.toList ++ path.opening.2.filterMap part?

/-- The segments with slashes between them. -/
def joinSegments (segments : List String) : String := "/".intercalate segments

/-- The path of a start and the segments after it. -/
def assemble (start : Option Part) (segments : List String) : Path :=
  match start, segments with
  | some .root, segments => ⟨"/" ++ joinSegments segments⟩
  | some .here, [] => ⟨"."⟩
  | some .here, segments => ⟨"./" ++ joinSegments segments⟩
  | _, segments => ⟨joinSegments segments⟩

/-- The path starts at the root. -/
def isAbsolute (path : Path) : Bool := path.text.startsWith "/"

/-- A path as seen from a directory; an absolute path stays as it is. -/
def join (directory path : Path) : Path :=
  if path.isAbsolute then path
  else if directory.text.isEmpty || directory.text.endsWith "/" then
    ⟨directory.text ++ path.text⟩
  else ⟨directory.text ++ "/" ++ path.text⟩

/-- The directory that a path names an entry of, if it names one. -/
def directory? (path : Path) : Option Path :=
  let (start, segments) := path.opening
  match Text.dropTailWhile isIdle segments with
  | [] => if start = some .here then some ⟨""⟩ else none
  | segments => some (assemble start (Text.dropTailWhile isIdle segments.dropLast))

/-- A path and the directories it lies in, at most so many. -/
def ancestorsWithin : Nat → Path → List Path
  | 0, path => [path]
  | count + 1, path =>
    match path.directory? with
    | some directory => path :: ancestorsWithin count directory
    | none => [path]

/-- A path and the directories it lies in, from the nearest up. -/
def ancestors (path : Path) : List Path := ancestorsWithin path.segments.length path

/-- The segments after so many that mean something. -/
def skipSegments : Nat → List String → List String
  | 0, segments => segments
  | _ + 1, [] => []
  | count + 1, segment :: rest =>
    if isIdle segment then skipSegments (count + 1) rest else skipSegments count rest

/-- What follows the parts of a base in a path that starts with them. -/
def after? (base path : Path) : Option Path :=
  let (start, segments) := path.opening
  let count := base.parts.length
  if !base.parts.isPrefixOf path.parts then none
  else if count = 0 then some (assemble start (Text.dropTailWhile isIdle segments))
  else
    let rest := skipSegments (count - start.toList.length) segments
    some ⟨joinSegments (Text.strip isIdle rest)⟩

/-- The name of the entry that a path names. -/
def entryName? (path : Path) : Option String :=
  match path.parts.getLast? with
  | some (.named name) => some name
  | _ => none

/-- The name of the entry without its extension, where a dot at the start opens none. -/
def stem? (path : Path) : Option String :=
  path.entryName?.map fun name =>
    let chars := name.toList
    let before := (chars.reverse.dropWhile (· != '.')).drop 1
    if before.isEmpty then name else String.ofList before.reverse

/-- The order of the kinds of parts. -/
def Part.rank : Part → Nat
  | .root => 0
  | .here => 1
  | .parent => 2
  | .named _ => 3

/-- The part comes before another. -/
def Part.precedes (left right : Part) : Bool :=
  match left, right with
  | .named left, .named right => left < right
  | left, right => left.rank < right.rank

/-- The parts come before others: they do so at the first difference, or end first. -/
def partsPrecede : List Part → List Part → Bool
  | _, [] => false
  | [], _ :: _ => true
  | left :: lefts, right :: rights =>
    left.precedes right || (left == right && partsPrecede lefts rights)

/-- The path comes before another. -/
def precedes (left right : Path) : Bool := partsPrecede left.parts right.parts

/-- The two paths mean the same. -/
def sameAs (left right : Path) : Bool := left.parts == right.parts

end Path

/-- Values by path, in the order of the paths. Paths that mean the same are one key. -/
structure PathMap (α : Type) where
  /-- The keys and their values. -/
  entries : List (Path × α) := []

namespace PathMap

variable {α : Type}

/-- The entries with the value of a path set. A path that is there keeps its spelling. -/
def insertEntry (path : Path) (value : α) : List (Path × α) → List (Path × α)
  | [] => [(path, value)]
  | (key, old) :: rest =>
    if path.sameAs key then (key, value) :: rest
    else if path.precedes key then (path, value) :: (key, old) :: rest
    else (key, old) :: insertEntry path value rest

/-- The map with the value of a path set. A path that is there keeps its spelling. -/
def insert (map : PathMap α) (path : Path) (value : α) : PathMap α :=
  ⟨insertEntry path value map.entries⟩

/-- The paths in order. -/
def paths (map : PathMap α) : List Path := map.entries.map (·.1)

/-- The value of a path. -/
def get? (map : PathMap α) (path : Path) : Option α :=
  (map.entries.find? fun (key, _) => key.sameAs path).map (·.2)

/-- The last of each row of entries with the same path. -/
def lastEntries : List (Path × α) → List (Path × α)
  | entry :: next :: rest =>
    if entry.1.sameAs next.1 then lastEntries (next :: rest)
    else entry :: lastEntries (next :: rest)
  | entries => entries

/-- The map of the given entries. Of those with the same path the last one stays, as it is
spelled. -/
def ofList (entries : List (Path × α)) : PathMap α :=
  ⟨lastEntries (entries.mergeSort fun left right => !right.1.precedes left.1)⟩

end PathMap

end DeclOrder
