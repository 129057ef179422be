/-
  ApiGuard.Cli.Directory
  ──────────────────────
  A directory of text files, and commands that run in it.

  A path leads from the directory by the names of directories to the name of a
  file.  There is a directory wherever there is a file below it; commands create
  files but no directories.
-/
import ApiGuard.Cli.Run

namespace ApiGuard.Cli

/-- A directory: the paths of its files, and their texts. -/
structure Directory where
  files : List (List String × String)

namespace Directory

/-! ## §1. Paths. -/

/-- The parts of a path. -/
def partsOf (path : String) : List String :=
  (path.toList.splitOn '/').map String.ofList

/-- Is there a directory at the given place? -/
def isDirectory (d : Directory) (place : List String) : Bool :=
  place.isEmpty || d.files.any fun (file, _) => place.isPrefixOf file && place ≠ file

/-- Follow the parts of a path from the place of a directory to that of a file. -/
def follow (d : Directory) (place : List String) : List String → Option (List String)
  | [] => none
  | [name] =>
    if name = "" ∨ name = "." ∨ name = ".." ∨ d.isDirectory (place ++ [name]) then none
    else some (place ++ [name])
  | part :: rest =>
    if part = "" ∨ part = "." then follow d place rest
    else if part = ".." then (if place = [] then none else follow d place.dropLast rest)
    else if d.isDirectory (place ++ [part]) then follow d (place ++ [part]) rest
    else none

/-- The place of a file to which a path leads.  A path from elsewhere leads to
none. -/
def locate (d : Directory) (path : String) : Option (List String) :=
  match path.toList with
  | '/' :: _ => none
  | _ => d.follow [] (partsOf path)

/-! ## §2. Files. -/

/-- The directory with the given files. -/
def ofList (files : List (String × String)) : Directory :=
  ⟨files.map fun (path, text) => ((partsOf path).filter fun part => part ≠ "" ∧ part ≠ ".", text)⟩

/-- The text of a file. -/
def read (d : Directory) (path : String) : Option String := do
  let place ← d.locate path
  let (_, text) ← d.files.find? (·.1 == place)
  return text

/-- The directory once a text is written to a file. -/
def write (d : Directory) (path text : String) : Option Directory := do
  let place ← d.locate path
  return ⟨(place, text) :: d.files.filter (·.1 ≠ place)⟩

end Directory

/-! ## §3. Runs. -/

/-- What comes of running a program. -/
structure Outcome where
  exitCode : Nat
  /-- What was printed. -/
  output : String
  /-- The directory afterwards. -/
  directory : Directory

/-- Do the actions one after the other, until one fails. -/
def perform (output : String) (d : Directory) : List Action → Outcome
  | [] => ⟨0, output, d⟩
  | .print text :: rest => perform (output ++ text) d rest
  | .write path text :: rest =>
    match d.write path text with
    | some d => perform output d rest
    | none => ⟨(CliError.unwritable path).exitCode, output, d⟩

/-- Run a command, or fail because there is none. -/
def run (d : Directory) (command : Except UsageError (Option Command)) : Outcome :=
  match command with
  | .error e => ⟨(CliError.usage e).exitCode, "", d⟩
  | .ok none => ⟨CliError.noCommand.exitCode, "", d⟩
  | .ok (some command) =>
    match command.actions d.read with
    | .error e => ⟨e.exitCode, "", d⟩
    | .ok actions => perform "" d actions

end ApiGuard.Cli
