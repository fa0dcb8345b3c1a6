import DeclOrder.Command
import Std.Time.DateTime.Timestamp

/-!
# The program

The host of the machine that the program runs on, and the program itself, which runs the command of
its arguments there.
-/

namespace DeclOrder.Machine

/-- The error of the system with a number and a wording. -/
def numbered (code : UInt32) (details : String) : SystemError :=
  .other s!"{details} (os error {code})"

/-- The error of the system behind an error of an operation. -/
def systemError : IO.Error → SystemError
  | .noFileOrDirectory .. => .notFound
  | .alreadyExists .. => .alreadyExists
  | .inappropriateType _ code _ => if code = 20 then .notADirectory else .isADirectory
  | .invalidArgument _ code details => if code = 36 then .nameTooLong else numbered code details
  | .permissionDenied _ code details =>
    if code = 13 then .permissionDenied else numbered code details
  | .otherError code details => numbered code details
  | error => .other (toString error)

/-- Do something that can fail. -/
def attempt {α : Type} (action : IO α) : IO (Except SystemError α) := do
  try
    return .ok (← action)
  catch error =>
    return .error (systemError error)

/-- The kind of something on the machine. -/
def kindOf (metadata : IO.FS.Metadata) : EntryKind :=
  match metadata.type with
  | .dir => .directory
  | _ => .file

/-- What lies at a place. Only texts can be passed to the machine. -/
def kind? (place : Place) : IO (Option EntryKind) := do
  match place with
  | .foreign .. => return none
  | .text path =>
    if path.text.contains '\x00' then return none
    try
      return some (kindOf (← (← IO.FS.realPath path.text).metadata))
    catch _ =>
      return none

/-- The name of an entry. The machine shows octets that are no text by the replacement character,
so nothing is found under the name that it gives. The octet `FF` begins no character either. -/
def entryName (entry : IO.FS.DirEntry) : IO EntryName := do
  let name := entry.fileName
  if !name.contains Text.replacement then return .text name
  try
    let _ ← entry.path.symlinkMetadata
    return .text name
  catch _ =>
    let pieces := name.splitOn (String.singleton Text.replacement)
    let octets := [0xFF].intercalate (pieces.map (·.toUTF8.data.toList))
    if undecodable : String.fromUTF8? ⟨octets.toArray⟩ = none then
      return .foreign octets undecodable
    else return .text name

/-- The entries of a directory. What lies under a name that is no text cannot be asked for, so it
counts as a file. -/
def entries (place : Place) : IO (Except SystemError (List (EntryName × EntryKind))) := do
  match place with
  | .foreign .. => return .error (.other "the name of the directory is no text")
  | .text path => attempt do
    let found ← (← IO.FS.realPath path.text).readDir
    let named ← found.toList.mapM fun entry => do
      let kind ← try pure (kindOf (← entry.path.metadata)) catch _ => pure .file
      return (← entryName entry, kind)
    return named.mergeSort fun left right => !right.1.precedes left.1

/-- What a walk through a directory below a place meets, by the names on the way from there. -/
partial def walk (place : Place) (names : List EntryName) : IO (List Visit) := do
  match ← entries (place.enter names) with
  | .error error => return [.unreadable names error]
  | .ok found =>
    let visits ← found.mapM fun (name, kind) => do
      let inside ← if kind = .directory then walk place (names ++ [name]) else pure []
      return .entry (names ++ [name]) kind :: inside
    return visits.flatten

/-- The time of the machine's clock. -/
def now : IO Timestamp := do
  let sinceEpoch := (← Std.Time.Timestamp.now).toNanosecondsSinceUnixEpoch.val
  let seconds := sinceEpoch / 1000000000
  return (Timestamp.ofUnix? seconds (sinceEpoch % 1000000000).toNat).getD Timestamp.epoch

/-- The machine as a host. -/
def host : Host IO where
  kind? := kind?
  entries := entries
  descendants place := walk place []
  read path := attempt (IO.FS.readBinFile path.text)
  write path octets := attempt (IO.FS.writeBinFile path.text octets)
  makeDirectory path := attempt (IO.FS.createDir path.text)
  now := now

end DeclOrder.Machine

/-- Run the command that the arguments ask for. -/
def main (arguments : List String) : IO UInt32 := do
  match DeclOrder.Command.ofArguments? arguments with
  | none =>
    IO.eprintln "error: invalid arguments\n\nFor more information, try '--help'."
    return 2
  | some command =>
    let response ← DeclOrder.Command.run DeclOrder.Machine.host command
    IO.print response.output
    IO.eprint response.notes
    return response.exitCode.toUInt32
