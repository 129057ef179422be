/-
  ApiGuard.Cli.Run
  ────────────────
  What commands do, as a list of actions: the text that they print and the files
  that they write, in order.
-/
import ApiGuard.Bundle
import ApiGuard.CallGraph.Dot
import ApiGuard.Cli.Command
import ApiGuard.Json.Writer
import ApiGuard.Lifetime.Reader
import ApiGuard.Regex.Engine
import ApiGuard.Report.Text

namespace ApiGuard.Cli

/-- Why a command fails. -/
inductive CliError where
  | usage (e : UsageError)
  | noCommand
  | unreadable (path : String)
  | unwritable (path : String)
  | lifetimes (e : LifetimeError)
  | bundle (e : BundleError)
  | hierarchy (e : HierarchyError)
  | pattern (e : PatternError)
  deriving DecidableEq, Repr

namespace CliError

/-- The wording of an error. -/
def message : CliError → String
  | .usage e => e.message
  | .noCommand => "missing command"
  | .unreadable path => "cannot read " ++ path
  | .unwritable path => "cannot write " ++ path
  | .lifetimes e => e.message
  | .bundle e => e.message
  | .hierarchy e => e.message
  | .pattern e => e.message

/-- The exit code of a program that fails. -/
def exitCode : CliError → Nat
  | .usage _ => 2
  | _ => 1

end CliError

/-- What a command does to its surroundings. -/
inductive Action where
  /-- Print a text. -/
  | print (text : String)
  /-- Write a text to a file. -/
  | write (path text : String)
  deriving DecidableEq, Repr

variable (read : String → Option String)

/-! ## §1. Inputs. -/

/-- The text of a file. -/
def readFile (path : String) : Except CliError String :=
  match read path with
  | some text => .ok text
  | none => .error (.unreadable path)

/-- The lifetime table in a file. -/
def readTable (path : String) : Except CliError LifetimeTable := do
  (LifetimeTable.parse (← readFile read path)).mapError .lifetimes

/-- The bundle in a file. -/
def readBundle (path : String) : Except CliError Bundle := do
  (Bundle.parse (← readFile read path)).mapError .bundle

/-- The well known libraries and those of the given patterns. -/
def readLibraries (patterns : List String) : Except CliError Libraries :=
  (patterns.foldlM PatternEngine.Libraries.add Libraries.wellKnown).mapError .pattern

/-- The analysis of a bundle. -/
def analyze (bundle : Bundle) (table : LifetimeTable) (config : AnalysisConfig) :
    Except CliError Analysis := do
  let hierarchy ← bundle.hierarchy.mapError .hierarchy
  return bundle.analyze { hierarchy, table, config }

/-! ## §2. Commands. -/

/-- The report of an analysed bundle. -/
def reportOf (options : AnalysisOptions) (bundle : Bundle) (table : LifetimeTable)
    (libraries : Libraries) (a : Analysis) : Report :=
  let window := bundle.manifest.window options.latestLevel
  { name := bundle.name
    manifest := bundle.manifest
    builtFor := bundle.manifest.builtFor options.defaultLevel
    window
    primaryApis := a.usage.primary.size
    secondaryApis := a.usage.secondary.size
    sdkCheck := a.usage.readsVersion
    classification := a.classify table libraries.contains window }

/-- What is printed of a method in a call graph: its callers, and the guards on
the ways to it. -/
def methodText (g : CallGraph) (method : String) : String :=
  (g.callerTrace method).render ++
    match g.guardsLeadingTo method with
    | [] => Report.line ("no guard reaching " ++ method)
    | found => String.join (found.map fun cs => Report.line ("guarded by " ++ cs.render))

/-- What is printed of a lifetime table. -/
def tableText (table : LifetimeTable) : TableQuery → String
  | .lookup apis => String.join (apis.map fun api => Report.line
      (if table.contains api then (table.lookup api).render
        else api ++ " is not an Android API"))
  | .list => String.join (table.toList.map fun life => Report.line life.render)
  | .count =>
    Report.line (toString table.size ++ " API lifetimes:")
      ++ Report.line ("    - " ++ toString table.countKnown ++ " with known bounds")
      ++ Report.line ("    - " ++ toString (table.size - table.countKnown)
        ++ " with unknown min or max level")

/-- What a command does, given the texts of files. -/
def Command.actions : Command → Except CliError (List Action)
  | .compat options patterns json coloured => do
    let table ← readTable read options.apis
    let bundle ← readBundle read options.input
    let libraries ← readLibraries patterns
    let report := reportOf options bundle table libraries (← analyze bundle table options.config)
    return .print (report.render coloured) ::
      (json.map fun path => .write path (report.toJson.pretty ++ "\n")).toList
  | .callGraph options output methods => do
    let table ← readTable read options.apis
    let bundle ← readBundle read options.input
    let g := (← analyze bundle table options.config).graph
    return (output.map fun path => .write path g.toDot).toList
      ++ methods.map fun method => .print (methodText g method)
  | .lifetimes apis query => do
    return [.print (tableText (← readTable read apis) query)]

/-- The files that a command reads. -/
def Command.inputs : Command → List String
  | .compat options .. => [options.apis, options.input]
  | .callGraph options .. => [options.apis, options.input]
  | .lifetimes apis _ => [apis]

end ApiGuard.Cli
