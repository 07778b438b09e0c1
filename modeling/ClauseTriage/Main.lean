import ClauseTriage.Cli.Command

/-!
# The program

Commands on the files of the machine.
-/
namespace ClauseTriage

/-- A refusal by its number where it has one. -/
def SystemError.ofIO (e : IO.Error) : SystemError :=
  match e with
  | .noFileOrDirectory .. => .notFound
  | .alreadyExists .. => .exists
  | .inappropriateType _ 20 _ => .notDirectory
  | .inappropriateType _ 21 _ => .isDirectory
  | .invalidArgument _ 36 _ => .nameTooLong
  | _ => .other (toString e)

/-- The result of an action, or why it was refused. -/
def attempt {α : Type} (action : IO α) : IO (Except SystemError α) := do
  match ← action.toBaseIO with
  | .ok a => return .ok a
  | .error e => return .error (.ofIO e)

/-- The files of the machine. -/
def machineFiles : FileSystem IO where
  read path := attempt (IO.FS.readBinFile path)
  write path text := attempt (IO.FS.writeFile path text)
  makeDirectory path := attempt (IO.FS.createDir path)

end ClauseTriage

def main (words : List String) : IO UInt32 := do
  let outcome ← ClauseTriage.Cli.run ClauseTriage.machineFiles words
  (← IO.getStdout).putStr outcome.output
  (← IO.getStderr).putStr outcome.diagnostics
  return outcome.code
