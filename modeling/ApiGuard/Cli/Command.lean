/-
  ApiGuard.Cli.Command
  ────────────────────
  The commands that a user can give, and how they are read from arguments.
-/
import ApiGuard.Analysis
import ApiGuard.Cli.Options

namespace ApiGuard.Cli

/-! ## §1. Commands. -/

/-- What the commands that analyse an application have in common. -/
structure AnalysisOptions where
  /-- The file of the bundle. -/
  input : String
  /-- The file of the lifetime table. -/
  apis : String
  /-- The last platform level that there is. -/
  latestLevel : Nat
  /-- The level that applications are built for if they do not say. -/
  defaultLevel : Nat
  config : AnalysisConfig
  deriving DecidableEq, Repr

/-- What is asked of a lifetime table. -/
inductive TableQuery where
  /-- The lifetimes of the given signatures. -/
  | lookup (apis : List String)
  /-- All lifetimes. -/
  | list
  /-- How many there are. -/
  | count
  deriving DecidableEq, Repr

/-- A command. -/
inductive Command where
  /-- Report the compatibility issues of an application. -/
  | compat (options : AnalysisOptions) (libraries : List String) (json : Option String)
      (coloured : Bool)
  /-- Write the call graph of an application, and what leads to some methods. -/
  | callGraph (options : AnalysisOptions) (output : Option String) (methods : List String)
  /-- Query a lifetime table. -/
  | lifetimes (apis : String) (query : TableQuery)
  deriving DecidableEq, Repr

/-- The kind of a command. -/
inductive Tool where
  | compat
  | callGraph
  | lifetimes
  deriving DecidableEq, Repr

/-- The kind of a name. -/
def Tool.ofName? : String → Option Tool
  | "compat" => some .compat
  | "ccg" => some .callGraph
  | "apilife" => some .lifetimes
  | _ => none

/-! ## §2. Options. -/

/-- The last platform level unless the user says otherwise. -/
def latestLevel : Nat := 34

/-- Flags on what is logged. -/
def loggingSpecs : List OptionSpec :=
  [⟨"debug", some 'd', .flag⟩, ⟨"verbose", some 'v', .flag⟩, ⟨"ecslog", some 'e', .flag⟩]

/-- The file of the lifetime table. -/
def apisSpec : OptionSpec := ⟨"apis", some 'a', .single⟩

/-- The options of an analysis. -/
def analysisSpecs : List OptionSpec :=
  loggingSpecs ++ [apisSpec, ⟨"input", some 'i', .single⟩, ⟨"latest-level", none, .single⟩,
    ⟨"default-level", none, .single⟩, ⟨"version-field", none, .many⟩,
    ⟨"feature-check", none, .many⟩, ⟨"skip-namespace", none, .many⟩]

/-- The options of a kind of command. -/
def Tool.specs : Tool → List OptionSpec
  | .compat =>
    analysisSpecs ++ [⟨"library", none, .many⟩, ⟨"json", none, .single⟩, ⟨"no-color", none, .flag⟩]
  | .callGraph => analysisSpecs ++ [⟨"output", some 'o', .single⟩, ⟨"method", some 'm', .many⟩]
  | .lifetimes => loggingSpecs ++ [apisSpec, ⟨"api", none, .many⟩, ⟨"list", some 'l', .flag⟩]

/-- An integer with an optional sign. -/
def integer? : List Char → Option Int
  | '+' :: cs => (Decimal.scan cs).bind fun (n, rest) => if rest = [] then some n else none
  | cs => (Decimal.scanSigned cs).bind fun (i, rest) => if rest = [] then some i else none

/-- The level that an option gives, or `default`. -/
def levelOf (given : Given) (name : String) (default : Nat) : Except UsageError Nat :=
  match given.value? name with
  | none => .ok default
  | some value =>
    match (integer? value.toList).bind Decimal.toUInt32? with
    | some level => .ok level
    | none => .error (.invalidNumber name value)

/-- The values of an option, which stand instead of `default` if it is given. -/
def valuesOr (given : Given) (name : String) (default : List String) : List String :=
  if given.has name then given.values name else default

/-- The configuration that the options give. -/
def configOf (given : Given) : AnalysisConfig :=
  let d : AnalysisConfig := {}
  { markers := {
      versionFields := valuesOr given "version-field" d.markers.versionFields
      featureChecks := valuesOr given "feature-check" d.markers.featureChecks }
    excludedNamespaces := valuesOr given "skip-namespace" d.excludedNamespaces }

/-- What the commands that analyse an application have in common. -/
def analysisOptionsOf (given : Given) : Except UsageError AnalysisOptions := do
  return {
    input := ← given.required "input"
    apis := ← given.required "apis"
    latestLevel := ← levelOf given "latest-level" latestLevel
    defaultLevel := ← levelOf given "default-level" latestLevel
    config := configOf given }

/-- What is asked of a lifetime table. -/
def queryOf (given : Given) : Except UsageError TableQuery :=
  match given.has "api", given.has "list" with
  | true, true => .error (.conflictingOptions "list" "api")
  | true, false => .ok (.lookup (given.values "api"))
  | false, true => .ok .list
  | false, false => .ok .count

/-! ## §3. Reading commands. -/

/-- Read the arguments of a kind of command. -/
def Tool.read (tool : Tool) (args : List String) : Except UsageError Command := do
  let given ← readOptions tool.specs args
  match tool with
  | .compat =>
    return .compat (← analysisOptionsOf given) (given.values "library") (given.value? "json")
      (!given.has "no-color")
  | .callGraph =>
    return .callGraph (← analysisOptionsOf given) (given.value? "output") (given.values "method")
  | .lifetimes => return .lifetimes (← given.required "apis") (← queryOf given)

/-- Read a command from all arguments, of which the first names its kind.
Without a first argument there is no command. -/
def Command.read : List String → Except UsageError (Option Command)
  | [] | ["--"] => .ok none
  | name :: args =>
    match Tool.ofName? name with
    | some tool => (tool.read args).map some
    | none => .error (.unknownCommand name)

end ApiGuard.Cli
