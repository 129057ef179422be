/-
  ApiGuard.Cli.Options
  ────────────────────
  Options on a command line.

  An option has a name, `--name`, and may have a letter, `-n`.  Its value is the
  next argument, or follows at once: `--name=value`, `-n=value`, `-nvalue`.  Flags
  take no value, and their letters may share an argument: `-nm`.
-/

namespace ApiGuard.Cli

/-- How often an option is given, and whether it takes a value. -/
inductive Arity where
  /-- At most once, without a value. -/
  | flag
  /-- At most once, with a value. -/
  | single
  /-- Any number of times, with a value. -/
  | many
  deriving DecidableEq, Repr

/-- An option that a command has. -/
structure OptionSpec where
  name : String
  letter : Option Char := none
  arity : Arity
  deriving DecidableEq, Repr

/-- What is wrong with a command line. -/
inductive UsageError where
  | unknownOption (text : String)
  | unexpectedArgument (text : String)
  | unexpectedValue (name : String)
  | missingValue (name : String)
  | missingOption (name : String)
  | repeatedOption (name : String)
  | conflictingOptions (first second : String)
  | invalidNumber (name value : String)
  | unknownCommand (name : String)
  deriving DecidableEq, Repr

/-- The wording of an error. -/
def UsageError.message : UsageError → String
  | .unknownOption text => "unknown option " ++ text
  | .unexpectedArgument text => "unexpected argument " ++ text
  | .unexpectedValue name => "option --" ++ name ++ " takes no value"
  | .missingValue name => "option --" ++ name ++ " needs a value"
  | .missingOption name => "option --" ++ name ++ " is required"
  | .repeatedOption name => "option --" ++ name ++ " is given twice"
  | .conflictingOptions first second => "option --" ++ first ++ " excludes --" ++ second
  | .invalidNumber name value => "option --" ++ name ++ ": invalid number " ++ value
  | .unknownCommand name => "unknown command " ++ name

/-- The options given, each with its value; that of a flag is empty. -/
abbrev Given := List (String × String)

variable (specs : List OptionSpec)

/-! ## §1. One argument. -/

/-- What an argument gives, and the option whose value is the next argument. -/
abbrev Reading := Except UsageError (Given × Option String)

/-- Read an argument that begins with two dashes, without these. -/
def readName (body : List Char) : Reading :=
  let name := String.ofList (body.takeWhile (· ≠ '='))
  match specs.find? (·.name == name), body.dropWhile (· ≠ '=') with
  | none, _ => .error (.unknownOption ("--" ++ name))
  | some spec, [] =>
    if spec.arity = .flag then .ok ([(name, "")], none) else .ok ([], some name)
  | some spec, _ :: value =>
    if spec.arity = .flag then .error (.unexpectedValue name)
    else .ok ([(name, String.ofList value)], none)

/-- Read the letters of an argument that begins with one dash. -/
def readLetters : List Char → Reading
  | [] => .ok ([], none)
  | c :: rest =>
    match specs.find? (·.letter == some c), rest with
    | none, _ => .error (.unknownOption (String.ofList ['-', c]))
    | some spec, rest =>
      if spec.arity = .flag then
        (readLetters rest).map fun (given, pending) => ((spec.name, "") :: given, pending)
      else
        match rest with
        | [] => .ok ([], some spec.name)
        | '=' :: value => .ok ([(spec.name, String.ofList value)], none)
        | value => .ok ([(spec.name, String.ofList value)], none)

/-- Read an argument that is not the value of an option. -/
def readArgument (arg : String) : Reading :=
  match arg.toList with
  | '-' :: '-' :: body => readName specs body
  | '-' :: c :: rest => readLetters specs (c :: rest)
  | _ => .error (.unexpectedArgument arg)

/-- Does the argument look like options, so that it is no value of one? -/
def looksLikeOptions (arg : String) : Bool :=
  match arg.toList with
  | '-' :: _ :: _ => true
  | _ => false

/-! ## §2. All arguments. -/

/-- Read the arguments in order.  Nothing may follow two dashes alone. -/
def readArguments : List String → Except UsageError Given
  | [] => .ok []
  | "--" :: [] => .ok []
  | "--" :: arg :: _ => .error (.unexpectedArgument arg)
  | arg :: rest =>
    match readArgument specs arg with
    | .error e => .error e
    | .ok (given, none) => (readArguments rest).map (given ++ ·)
    | .ok (given, some name) =>
      match rest with
      | [] => .error (.missingValue name)
      | value :: rest =>
        if looksLikeOptions value then .error (.missingValue name)
        else (readArguments rest).map ((given ++ [(name, value)]) ++ ·)

/-- The values of an option, in order. -/
def Given.values (given : Given) (name : String) : List String :=
  (given.filter (·.1 == name)).map (·.2)

/-- The value of an option that is given once at most. -/
def Given.value? (given : Given) (name : String) : Option String := (given.values name).head?

/-- Is the flag given? -/
def Given.has (given : Given) (name : String) : Bool := !(given.values name).isEmpty

/-- An option that may be given once and is given twice. -/
def repeated? (given : Given) : Option OptionSpec :=
  specs.find? fun spec => spec.arity ≠ .many && 1 < (given.values spec.name).length

/-- Read the options of a command. -/
def readOptions (args : List String) : Except UsageError Given := do
  let given ← readArguments specs args
  match repeated? specs given with
  | some spec => throw (.repeatedOption spec.name)
  | none => return given

/-! ## §3. Values. -/

/-- The value of an option that must be given. -/
def Given.required (given : Given) (name : String) : Except UsageError String :=
  match given.value? name with
  | some value => .ok value
  | none => .error (.missingOption name)

end ApiGuard.Cli
