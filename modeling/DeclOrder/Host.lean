import DeclOrder.Failure
import DeclOrder.Place
import DeclOrder.Timestamp

/-!
# Hosts

A host is a system of files as programs see it: operations on places that can fail with one of the
system's errors, in the monad of the host. Texts are files of UTF-8, and the failure of an
operation on them names what was done and the path.
-/

namespace DeclOrder

/-- Why an operation of the system fails. -/
inductive SystemError where
  /-- Nothing is there, or a directory on the way is missing. -/
  | notFound
  /-- Something is there already. -/
  | alreadyExists
  /-- A file stands where a directory is needed. -/
  | notADirectory
  /-- A directory stands where a file is needed. -/
  | isADirectory
  /-- The program is not allowed to. -/
  | permissionDenied
  /-- A name or a path has more octets than the system takes. -/
  | nameTooLong
  /-- The path has the character that ends texts of the system. -/
  | nulInPath
  /-- Any other reason, in the system's words. -/
  | other (text : String)
  deriving DecidableEq, Repr

/-- The system's words for an error. -/
def SystemError.message : SystemError → String
  | .notFound => "No such file or directory (os error 2)"
  | .alreadyExists => "File exists (os error 17)"
  | .notADirectory => "Not a directory (os error 20)"
  | .isADirectory => "Is a directory (os error 21)"
  | .permissionDenied => "Permission denied (os error 13)"
  | .nameTooLong => "File name too long (os error 36)"
  | .nulInPath => "file name contained an unexpected NUL byte"
  | .other text => text

/-- What a path leads to. -/
inductive EntryKind where
  /-- A file. -/
  | file
  /-- A directory. -/
  | directory
  deriving DecidableEq, Repr

/-- What a walk through a directory and all directories below it meets, by the names on the way from
there. -/
inductive Visit where
  /-- An entry. -/
  | entry (names : List EntryName) (kind : EntryKind)
  /-- A directory that cannot be read. -/
  | unreadable (names : List EntryName) (error : SystemError)
  deriving DecidableEq

/-- A system of files. -/
structure Host (m : Type → Type) where
  /-- What lies at a place, if anything. -/
  kind? : Place → m (Option EntryKind)
  /-- The entries of a directory, in the order of their names. -/
  entries : Place → m (Except SystemError (List (EntryName × EntryKind)))
  /-- What a walk through a directory meets: the entries of every directory in the order of their
  names, each followed by all that lies below it. Nothing is met below a directory that cannot be
  read. -/
  descendants : Place → m (List Visit)
  /-- The octets of a file. -/
  read : Path → m (Except SystemError ByteArray)
  /-- Put octets into a file, which is made if it is not there. -/
  write : Path → ByteArray → m (Except SystemError Unit)
  /-- Make a directory in a directory. -/
  makeDirectory : Path → m (Except SystemError Unit)
  /-- The time. -/
  now : m Timestamp

namespace Host

variable {m : Type → Type} [Monad m]

/-- A path leads to something. -/
def pathExists (host : Host m) (path : Path) : m Bool :=
  return (← host.kind? (.text path)).isSome

/-- A path leads to a directory. -/
def isDirectory (host : Host m) (path : Path) : m Bool :=
  return (← host.kind? (.text path)) == some .directory

/-- A path leads to a file. -/
def isFile (host : Host m) (path : Path) : m Bool :=
  return (← host.kind? (.text path)) == some .file

/-- The failure of an operation on a path. -/
def failure (operation : String) (path : Path) (cause : String) : Failure :=
  ⟨["failed to " ++ operation ++ " `" ++ path.text ++ "`"], cause⟩

/-- Why a file could not be read: a directory can be opened, but not read. -/
def readFailure (path : Path) (error : SystemError) : Failure :=
  let operation := if error = .isADirectory then "read from file" else "open file"
  failure operation path error.message

/-- The text of a file. -/
def readText (host : Host m) (path : Path) : m (Except Failure String) := do
  match ← host.read path with
  | .error error => return .error (readFailure path error)
  | .ok octets =>
    match String.fromUTF8? octets with
    | some text => return .ok text
    | none =>
      return .error (failure "read from file" path "stream did not contain valid UTF-8")

/-- What became of a directory that could not be made: no harm is done if it is there. -/
def orPresent (host : Host m) (path : Path) (error : SystemError) :
    m (Except SystemError Unit) := do
  if ← host.isDirectory path then return .ok () else return .error error

/-- Make the first of some directories, each of which lies in the next, and before it the missing
ones among the others. -/
def makeChain (host : Host m) : List Path → m (Except SystemError Unit)
  | [] => return .error (.other "failed to create whole tree")
  | path :: above => do
    if path.text.isEmpty then return .ok ()
    match ← host.makeDirectory path with
    | .ok () => return .ok ()
    | .error .notFound =>
      match ← host.makeChain above with
      | .error error => return .error error
      | .ok () =>
        match ← host.makeDirectory path with
        | .ok () => return .ok ()
        | .error error => host.orPresent path error
    | .error error => host.orPresent path error

/-- Make a directory and the missing ones among those it lies in. -/
def makeDirectories (host : Host m) (path : Path) : m (Except Failure Unit) := do
  let made ← host.makeChain path.ancestors
  return made.mapError fun error => failure "create directory" path error.message

/-- Write the text of a file. The directory it lies in is made if need be. -/
def writeText (host : Host m) (path : Path) (text : String) : m (Except Failure Unit) := do
  let directory := path.directory?.getD ⟨""⟩
  match attempting ("create parent dir for " ++ path.text) (← host.makeDirectories directory) with
  | .error failure => return .error failure
  | .ok () =>
    let written ← host.write path text.toUTF8
    return attempting ("write " ++ path.text) <|
      written.mapError fun error => failure "create file" path error.message

end Host

end DeclOrder
