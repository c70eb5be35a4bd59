import Semijoin.Command.Run

/-!
# The program

The program reads what a command line names, runs it, and then writes what the run leaves to be
written. What reading and writing do is up to the system on which the program runs.
-/

namespace Semijoin.Command

/-- What the program asks of a system. What cannot be read or written is told with a reason. -/
structure System (m : Type → Type) where
  file : String → m (Except String String)
  input : m (Except String String)
  environment : String → m (Option String)
  write : Sink → String → m (Except String Unit)

/-- The same surroundings if nothing can be written, for a reason. -/
def Surroundings.refusing (surroundings : Surroundings) (reason : String) : Surroundings :=
  { surroundings with canWrite := fun _ => false, canPrint := false, refusal := fun _ => reason }

namespace System

variable {m : Type → Type} [Monad m] (system : System m)

/-- What stands for a text that is not read. -/
def unread : Except String String := .error "not read"

/-- Reads the file of the configuration, if one is named. -/
def readConfig (invocation : Invocation) : m (Except String String) :=
  match invocation.config with
  | some path => system.file path
  | none => pure unread

/-- Reads the input of a task if it is needed (`read_input`). -/
def readInput (task : Task) (needed : Bool) : m (Except String String) :=
  match needed, task.input with
  | true, some path => system.file path
  | true, none => system.input
  | false, _ => pure unread

/-- Reads what an invocation names, and tells it as if everything could be written. The input is
read only if there is a configuration. -/
def meet (invocation : Invocation) : m Surroundings := do
  let config ← system.readConfig invocation
  let sentinel ← system.environment Config.environmentKey
  let configured := invocation.configure (fun _ => config) fun _ => sentinel
  let input ← system.readInput invocation.task configured.isOk
  return {
    file := fun path => if invocation.config = some path then config else input
    input := input
    environment := fun _ => sentinel
    canWrite := fun _ => true }

/-- What a command line meets. One that is not carried out reads nothing. -/
def meetWords (words : List String) : m Surroundings :=
  match parse words with
  | .ok invocation => system.meet invocation
  | .error _ => pure {
      file := fun _ => unread
      input := unread
      environment := fun _ => none
      canWrite := fun _ => true }

/-- Runs a command line in the surroundings that it meets and writes what is to be written. If that
is refused, the run ends as one that has met the refusal. -/
def settle (surroundings : Surroundings) (words : List String) : m Outcome := do
  let outcome := run surroundings words
  match outcome.written with
  | none => return outcome
  | some (sink, text) =>
    match ← system.write sink text with
    | .ok () => return outcome
    | .error reason => return run (surroundings.refusing reason) words

/-- Carries out a command line. -/
def execute (words : List String) : m Outcome := do
  system.settle (← system.meetWords words) words

end System

end Semijoin.Command
