import Semijoin.Command.Program

/-!
# The executable

Files, streams and the environment as the program finds them, and the exit code of a run.
-/

namespace Semijoin.Command

/-- The wording of what the system says when a file cannot be used. -/
def reasonOf : IO.Error → String
  | .noFileOrDirectory .. => "No such file or directory (os error 2)"
  | .permissionDenied .. => "Permission denied (os error 13)"
  | .inappropriateType .. => "Is a directory (os error 21)"
  | failure => failure.toString

/-- Performs an action and turns an exception into a reason. -/
def attempt {α : Type} (action : IO α) : IO (Except String α) := do
  match ← action.toBaseIO with
  | .ok value => return .ok value
  | .error failure => return .error (reasonOf failure)

/-- Writes a text to its place (`write_output`). -/
def writeTo (sink : Sink) (text : String) : IO Unit := do
  match sink with
  | .output =>
    IO.print text
    (← IO.getStdout).flush
  | .file path => IO.FS.writeFile path text

/-- The system on which the executable runs. -/
def System.real : System IO where
  file path := attempt (IO.FS.readFile path)
  input := attempt do (← IO.getStdin).readToEnd
  environment name := IO.getEnv name
  write sink text := attempt (writeTo sink text)

end Semijoin.Command

open Semijoin.Command in
/-- Runs the command line, and writes the records and the notes of its outcome. -/
def main (words : List String) : IO UInt32 := do
  let outcome ← System.real.execute words
  (outcome.records (verbosityOf words) ++ outcome.notes).forM IO.eprintln
  return outcome.code
