/-
  ApiGuard.Main
  ─────────────
  The program: reads the files that its command names, and does what the command
  does.
-/
import ApiGuard.Cli.Run

open ApiGuard.Cli

/-- The text of a file, if it can be read. -/
def readText? (path : String) : IO (Option String) :=
  try return some (← IO.FS.readFile path) catch _ => return none

/-- Do an action. -/
def act : Action → IO Unit
  | .print text => IO.print text
  | .write path text => IO.FS.writeFile path text

/-- Say what is wrong, and give the exit code of the failure. -/
def fail (e : CliError) : IO UInt32 := do
  IO.eprintln e.message
  return e.exitCode.toUInt32

/-- Do the actions one after the other, until one fails. -/
def actAll : List Action → IO UInt32
  | [] => return 0
  | action :: rest => do
    try act action catch e =>
      IO.eprintln (toString e)
      return 1
    actAll rest

/-- Run a command. -/
def runCommand (command : Command) : IO UInt32 := do
  let texts ← command.inputs.mapM fun path => return (path, ← readText? path)
  match command.actions fun path => (texts.lookup path).join with
  | .error e => fail e
  | .ok actions => actAll actions

def main (args : List String) : IO UInt32 :=
  match Command.read args with
  | .error e => fail (.usage e)
  | .ok none => fail .noCommand
  | .ok (some command) => runCommand command
