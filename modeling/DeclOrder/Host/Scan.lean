import DeclOrder.Glob
import DeclOrder.Host

/-!
# Scanning for files

`Host.scan` finds the files of a host whose paths match a glob pattern, one component of the
pattern at a time. A component without wildcards leads straight on, even over `.` and `..`; one
with wildcards is matched by the names of a directory's entries, and by `.` and `..` only if it
starts with a dot; `**` leads to every entry below a directory. A match of the whole pattern that
is a directory is passed over, so a pattern that ends in `**` or in a slash finds nothing.

Names that are no text match nothing, but `**` goes on below them. The first directory that cannot
be read ends the scan, and so does the first match whose way is no text, even if it is a directory.
-/

namespace DeclOrder

namespace Host

/-- The text that a component stands for if it has no wildcards. -/
def literal? (component : List Glob.Token) : Option (List Char) :=
  component.mapM fun token =>
    match token with
    | .literal char => some char
    | _ => none

/-- The component is `**`. -/
def isRecursive (component : List Glob.Token) : Bool := component == [.directories]

/-- Of `..` and `.`, those that a component matches. -/
def specialEntries (component : List Glob.Token) : List String :=
  if component.head? = some (.literal '.') then
    ["..", "."].filter fun name => Glob.isMatch component name.toList
  else []

/-- Where a scan has come to, and whether it is a directory. -/
structure Stop where
  /-- The place. -/
  place : Place
  /-- A directory lies there. -/
  isDirectory : Bool
  deriving DecidableEq

/-- Why a scan fails. -/
inductive ScanError where
  /-- The pattern is no pattern. -/
  | pattern (error : Glob.SyntaxError)
  /-- A directory cannot be read. -/
  | unreadable (place : Place) (error : SystemError)
  /-- The way to a match is no text. -/
  | foreign (place : Place)
  deriving DecidableEq

/-- What a scan finds, match by match: a match, or a directory on the way that cannot be read. -/
abbrev Finding := Except ScanError Stop

/-- The finding is a directory, or one that cannot be read. -/
def Finding.isDirectory : Finding → Bool
  | .ok stop => stop.isDirectory
  | .error _ => true

end Host

namespace Visit

open Host (Finding)

/-- What a visit below a place finds. -/
def finding (place : Place) : Visit → Finding
  | .entry names kind => .ok ⟨place.enter names, kind == .directory⟩
  | .unreadable names error => .error (.unreadable (place.enter names) error)

/-- The name of the entry that is visited matches the component. -/
def isMatch (component : List Glob.Token) : Visit → Bool
  | .entry names _ =>
    (names.getLast?.bind EntryName.text?).any fun name => Glob.isMatch component name.toList
  | .unreadable .. => false

end Visit

namespace Host

variable {m : Type → Type} [Monad m]

/-- The stop at a place. -/
def stopAt (host : Host m) (place : Place) : m Stop :=
  return ⟨place, (← host.kind? place) == some .directory⟩

/-- What components lead to from a stop, in the order in which it is found. -/
def reach (host : Host m) (components : List (List Glob.Token)) (stop : Stop) :
    m (List Finding) := do
  match components with
  | [] => return [.ok stop]
  | component :: rest =>
    match literal? component with
    | some chars =>
      let name := String.ofList chars
      let place := stop.place.enter [.text name]
      let kind ← host.kind? place
      let found := if name = "." ∨ name = ".." then stop.isDirectory else kind.isSome
      if found then reach host rest ⟨place, kind == some .directory⟩ else return []
    | none =>
      if !stop.isDirectory then return []
      if isRecursive component then
        let visits ← host.descendants stop.place
        match _recursive : rest.dropWhile isRecursive with
        | [] => return (visits.map (Visit.finding stop.place)).filter Finding.isDirectory
        | following :: later =>
          let found ← visits.mapM fun visit =>
            match visit.finding stop.place with
            | .error error => return [.error error]
            | .ok below =>
              if visit.isMatch following then reach host later below else return []
          return found.flatten
      else
        match ← host.entries stop.place with
        | .error error => return [.error (.unreadable stop.place error)]
        | .ok entries =>
          let special ← ((specialEntries component).map stop.place.special).mapM host.stopAt
          let matching := entries.filter fun (name, _) =>
            name.text?.any fun text => Glob.isMatch component text.toList
          let entered := matching.map fun (name, kind) =>
            (⟨stop.place.enter [name], kind == .directory⟩ : Stop)
          let found ← (special ++ entered).mapM (reach host rest)
          return found.flatten
  termination_by components.length
  decreasing_by
    · simp
    · have shorter := (rest.dropWhile_sublist isRecursive).length_le
      rw [_recursive] at shorter
      simp only [List.length_cons] at shorter ⊢
      omega
    · simp

/-- The directory that a pattern starts from and its components. A slash at the end closes the last
component. -/
def patternParts (pattern : String) : Path × List String :=
  let absolute := pattern.startsWith "/"
  let chars := pattern.toList.drop (if absolute then 1 else 0)
  let components := (chars.splitOn '/').map String.ofList
  let closed := if components.getLast? = some "" then components.dropLast else components
  (⟨if absolute then "/" else "."⟩, if chars.isEmpty then [""] else closed)

/-- The path of a finding. -/
def Finding.path? (finding : Finding) : Except ScanError Path := do
  match (← finding).place with
  | .text path => return path
  | place => throw (.foreign place)

/-- The files whose paths match a pattern. After a slash at its end only directories match, so no
files are found. -/
def scan (host : Host m) (pattern : String) : m (Except ScanError (List Path)) := do
  let (start, components) := patternParts pattern
  match Glob.compile pattern *> components.mapM Glob.compile with
  | .error error => return .error (.pattern error)
  | .ok components =>
    let closed := pattern.endsWith "/"
    let found ← reach host components (← host.stopAt (.text start))
    match (found.filter fun finding => !closed || finding.isDirectory).mapM Finding.path? with
    | .error error => return .error error
    | .ok paths => if closed then return .ok [] else return .ok (← paths.filterM host.isFile)

end Host

end DeclOrder
