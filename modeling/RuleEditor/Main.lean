import RuleEditor.CommandLine.Basic

/-!
# The program

Reads the files that a command asks for, runs it, and carries out what it asks to be written and
printed.
-/

namespace RuleEditor

/-- The reason for which a file could not be accessed. -/
def FileError.ofError : IO.Error → FileError
  | .inappropriateType _ 21 _ => .isAFolder
  | .inappropriateType .. => .notAFolder
  | .invalidArgument .. => .nameTooLong
  | .permissionDenied .. => .denied
  | .userError _ => .notText
  | _ => .notFound

/-- The text of a file. -/
def readText (path : String) : IO (Except FileError String) := do
  try
    return .ok (← IO.FS.readFile path)
  catch e => return .error (.ofError e)

/-- The variables of the environment that matter. -/
def readEnvironment : IO Environment := do
  let names :=
    [Environment.priorityVariable, Environment.operatorVariable, Environment.debugVariable]
  let values ← names.mapM fun name => return (name, ← IO.getEnv name)
  return values.filterMap fun (name, value) => value.map (name, ·)

/-- Carries out what a command asks to be written. -/
def perform (outcome : Outcome) : IO Outcome := do
  match outcome.written with
  | none => return outcome
  | some (path, text) =>
    try
      IO.FS.writeFile path text
      return outcome
    catch e => return outcome.fail (.file (.ofError e))

end RuleEditor

open RuleEditor in
/-- Runs the command that the arguments give. -/
def main (args : List String) : IO UInt32 := do
  match Invocation.ofArgs? args with
  | none =>
    IO.eprintln "usage: (form | validate | compile | export | import | catalog) [options]"
    return 2
  | some invocation =>
    let texts ← invocation.command.inputs.mapM fun path => return (path, ← readText path)
    let files : FileReader := fun path =>
      (OrderedMap.get? texts path).getD (.error .notFound)
    let outcome ← perform (invocation.run (← readEnvironment) files)
    IO.print outcome.stdout
    IO.eprint outcome.stderr
    return outcome.code
