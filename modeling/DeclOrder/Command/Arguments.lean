/-!
# Arguments of a command line

Options are written `--name`, `--name=value` or `--name value`; some without a value have a letter
too, and letters can share a hyphen. A value that stands by itself does not start with a hyphen,
unless it is one. Arguments are read from left to right, and the first that cannot be understood,
or that asks for something else than the command to be run, decides.
-/

namespace DeclOrder

/-- What an option does. -/
inductive OptionKind where
  /-- It is given or not. -/
  | flag
  /-- It has a value that satisfies the test. -/
  | value (accepts : String → Bool)
  /-- It has a value and can be given more than once. -/
  | values
  /-- It asks for something else than the command to be run. -/
  | request

/-- An option that a command understands. -/
structure OptionForm where
  /-- The name after two hyphens. -/
  name : String
  /-- The letter after one hyphen. -/
  letter : Option Char := none
  /-- What it does. -/
  kind : OptionKind

/-- Options that were given, each by its name and its value, which is empty for flags. -/
abbrev GivenOptions := List (String × String)

/-- What arguments say. -/
inductive Arguments where
  /-- Options, and the arguments from the first one that is none. -/
  | options (given : GivenOptions) (rest : List String)
  /-- The request of a name. -/
  | request (name : String)

namespace Arguments

/-- The options after one more is given, unless it must not be given again. -/
def addOption? (given : GivenOptions) (name value : String) (repeats : Bool) :
    Option GivenOptions :=
  if !repeats && (given.lookup name).isSome then none else some (given ++ [(name, value)])

/-- The name and the value that an argument after its hyphens consists of. -/
def nameAndValue (chars : List Char) : String × Option String :=
  let value := match chars.dropWhile (· != '=') with
    | _ :: value => some (String.ofList value)
    | [] => none
  (String.ofList (chars.takeWhile (· != '=')), value)

/-- The argument can be the value of the option before it. -/
def canBeValue (argument : String) : Bool := argument == "-" || !argument.startsWith "-"

/-- The options after a run of letters, or the name of the request that one of them makes. -/
def readLetters (forms : List OptionForm) (given : GivenOptions) :
    List Char → Option (Except String GivenOptions)
  | [] => some (.ok given)
  | letter :: rest => do
    let form ← forms.find? (·.letter == some letter)
    match form.kind with
    | .flag => readLetters forms (← addOption? given form.name "" false) rest
    | .request => return .error form.name
    | _ => none

/-- Read arguments after the given options. -/
def read? (forms : List OptionForm) (given : GivenOptions) :
    List String → Option Arguments
  | [] => some (.options given [])
  | argument :: rest =>
    match argument.toList with
    | ['-', '-'] => if rest.isEmpty then some (.options given []) else none
    | '-' :: '-' :: chars => do
      let (name, value) := nameAndValue chars
      let form ← forms.find? (·.name == name)
      match form.kind, value with
      | .flag, none => read? forms (← addOption? given name "" false) rest
      | .request, none => return .request name
      | .value accepts, some value =>
        if accepts value then read? forms (← addOption? given name value false) rest else none
      | .value accepts, none =>
        match rest with
        | value :: rest =>
          if canBeValue value && accepts value then
            read? forms (← addOption? given name value false) rest
          else none
        | [] => none
      | .values, some value => read? forms (← addOption? given name value true) rest
      | .values, none =>
        match rest with
        | value :: rest =>
          if canBeValue value then read? forms (← addOption? given name value true) rest else none
        | [] => none
      | _, _ => none
    | '-' :: letter :: letters => do
      match ← readLetters forms given (letter :: letters) with
      | .ok given => read? forms given rest
      | .error name => return .request name
    | _ => some (.options given (argument :: rest))

/-- The values of an option, in order. -/
def valuesOf (given : GivenOptions) (name : String) : List String :=
  (given.filter (·.1 == name)).map (·.2)

end Arguments

end DeclOrder
