import Semijoin.Command.Help
import Semijoin.Config
import Semijoin.Document.Verify
import Semijoin.Multisearch

/-!
# Running a command

The configuration is loaded first, then the input is read as a whole. A task turns the
text of the input into a delivery: one text and the place it goes to. Nothing else is
ever written, so a failure leaves no partial output behind.
-/

namespace Semijoin.Command

/-- Why a command fails. -/
inductive Failure where
  | config (failure : Config.Failure)
  | unreadable (path : Option String) (reason : String)
  | notDocument (path : Option String) (fault : ReadFault)
  | faulty (fault : Fault)
  | multisearch (failure : Multisearch.Failure)
  | unwritable (path : String) (reason : String)
  | unprintable (reason : String)
  deriving DecidableEq, Repr

/-- How an input is called. -/
def inputName (path : Option String) : String := path.getD "stdin"

/-- The wording of a failure. -/
def Failure.message : Failure → String
  | .config failure => failure.message
  | .unreadable path _ => "failed to read " ++ inputName path
  | .notDocument path _ => inputName path ++ " is not a JSON document"
  | .faulty fault => fault.message
  | .multisearch failure => failure.message
  | .unwritable path _ => s!"failed to write {path}"
  | .unprintable reason => reason

/-- What a failure comes from, if it comes from something else. -/
def Failure.cause? : Failure → Option String
  | .config (.unreadable _ reason) | .unreadable _ reason | .unwritable _ reason => some reason
  | .notDocument _ fault => some fault.message
  | .multisearch (.faulty _ fault) => some fault.message
  | .config _ | .faulty _ | .multisearch _ | .unprintable _ => none

/-- The lines that tell of a failure and of its cause. -/
def Failure.note (failure : Failure) : String :=
  let indented := fun cause : String =>
    String.ofList (cause.toList.flatMap fun c => if c = '\n' then "\n    ".toList else [c])
  s!"Error: {failure.message}" ++
    (failure.cause?.elim "" fun cause => "\n\nCaused by:\n    " ++ indented cause)

/-- Where a text goes: to the standard output or to a file. -/
inductive Sink where
  | output
  | file (path : String)
  deriving DecidableEq, Repr

/-- The text that a task produces, where it goes, and the line that tells of it. -/
structure Delivery where
  status : Option String
  sink : Sink
  text : String
  /-- A text that cannot be printed ends the run with a failure, and not at once. -/
  checked : Bool
  deriving DecidableEq, Repr

/-- The sink that an option names. -/
def Sink.ofOption (out : Option String) : Sink :=
  match out with
  | some path => .file path
  | none => .output

/-- Reads the text of an input as a document (`parse_document`). -/
def readDocument (input : Option String) (text : String) : Except Failure Json :=
  (Json.read text).mapError (.notDocument input)

/-- The layout of a document in a format. -/
def Format.layout : Format → Json.Layout
  | .compact | .multisearch => .compact
  | .pretty => .indented

/-- Expands a document (`cmd_compile`). -/
def compileDocument (sentinel : String) (input : Option String) (out : Sink)
    (layout : Json.Layout) (text : String) : Traced Failure Delivery := do
  let document ← Traced.ofExcept (readDocument input text)
  let expansion := Document.expand sentinel document
  let report ← expansion.outcome.mapFault .faulty
  return {
    status := some s!"ok rewrote document ({report.text})"
    sink := out
    text := String.ofList (expansion.document.chars layout 0 ++ ['\n'])
    checked := true }

/-- Expands a multi-search body. -/
def compileBody (sentinel : String) (out : Sink) (text : String) : Traced Failure Delivery := do
  let body ← (Multisearch.expand sentinel text).mapFault .multisearch
  return {
    status := some s!"ok rewrote {body.searches} searches ({body.report.text})"
    sink := out
    text := body.text
    checked := true }

/-- Checks a document (`cmd_verify`). -/
def verifyDocument (input : Option String) (text : String) : Except Failure Delivery := do
  let document ← readDocument input text
  let report ← (Document.verify document).mapError .faulty
  return {
    status := some "ok all join specifications are valid"
    sink := .output
    text := report.byLabel ++ "\n"
    checked := false }

/-- Lists hosts one on a line, or as a JSON array. -/
def listing (json : Bool) (hosts : List Host) : String :=
  if json then
    let entries := hosts.map fun host => Json.object
      [("at", .string host.place.text), ("label", .string host.label.key)]
    (Json.array entries).pretty ++ "\n"
  else
    String.join (hosts.map fun host => s!"{host.label.key}\t{host.place.text}\n")

/-- Lists the hosts in a document (`cmd_locate`). -/
def locateHosts (input : Option String) (json : Bool) (text : String) :
    Except Failure Delivery := do
  let document ← readDocument input text
  let hosts ← (Host.locate Label.all document).mapError .faulty
  return { status := none, sink := .output, text := listing json hosts, checked := false }

/-- The file that a task reads, if it does not read the standard input. -/
def Task.input : Task → Option String
  | .compile input _ _ | .verify input | .locate input _ => input

/-- Carries out a task on the text of its input. -/
def Task.deliver (sentinel : String) (task : Task) (text : String) : Traced Failure Delivery :=
  match task with
  | .compile _ out .multisearch => compileBody sentinel (.ofOption out) text
  | .compile input out format =>
    compileDocument sentinel input (.ofOption out) format.layout text
  | .verify input => Traced.ofExcept (verifyDocument input text)
  | .locate input json => Traced.ofExcept (locateHosts input json text)

/-- Carries out a task on what reading its input gave. -/
def Task.perform (sentinel : String) (task : Task) (read : Except String String) :
    Traced Failure Delivery :=
  match read with
  | .ok text => task.deliver sentinel text
  | .error reason => Traced.fail (.unreadable task.input reason)

/-- The configuration of an invocation, from what reading the named file gave, if one is named, and
from the environment (`load_config`). -/
def Invocation.configure (invocation : Invocation) (file : String → Except String String)
    (environment : String → Option String) : Except Config.Failure Config := do
  let base ← match invocation.config with
    | none => pure Config.default
    | some path =>
      match file path with
      | .ok text => Config.ofText text
      | .error reason => throw (.unreadable path reason)
  base.override environment

/-- How a run ends: the exit code, the lines on the error output, the text that is written
and where, and the events. -/
structure Outcome where
  code : UInt32
  notes : List String
  written : Option (Sink × String)
  events : List Event

/-- The records of the events that are at most as detailed as the verbosity. On the error
output they stand before the notes. -/
def Outcome.records (outcome : Outcome) (verbosity : Nat) : List String :=
  (outcome.events.filter fun event => event.level.rank ≤ verbosity).map Event.text

/-- What a command line meets: the texts of files by path, the standard input, the
environment, the files that can be written, and whether the standard output can. A text that
cannot be read is a reason, and there is one for what cannot be written. -/
structure Surroundings where
  file : String → Except String String
  input : Except String String
  environment : String → Option String
  canWrite : String → Bool
  canPrint : Bool := true
  refusal : Sink → String := fun _ => ""

namespace Surroundings

variable (surroundings : Surroundings)

/-- The text that a task reads. -/
def read (task : Task) : Except String String :=
  match task.input with
  | some path => surroundings.file path
  | none => surroundings.input

/-- A text can be written to its place. Printing an empty text asks nothing of the system. -/
def accepts (sink : Sink) (text : String) : Bool :=
  match sink with
  | .output => surroundings.canPrint || text.isEmpty
  | .file path => surroundings.canWrite path

/-- Why a text cannot be written to its place, if it cannot. -/
def refused? (sink : Sink) (text : String) : Option String :=
  if surroundings.accepts sink text then none else some (surroundings.refusal sink)

/-- A text on the standard output, if it can be written there. -/
def printed? (text : String) : Option (Sink × String) :=
  if surroundings.accepts .output text then some (.output, text) else none

end Surroundings

/-- The end of a run that does not get as far as a task. Help and the version are printed if
they can be. -/
def Stop.outcome (stop : Stop) (surroundings : Surroundings) : Outcome :=
  match stop with
  | .version => ⟨0, [], surroundings.printed? "filterjoin 0.3.0\n", []⟩
  | .help scope => ⟨0, [], surroundings.printed? scope.help, []⟩
  | .bare => ⟨2, [String.ofList Scope.program.help.toList.dropLast], none, []⟩
  | .misuse reason => ⟨2, ["error: " ++ reason.message], none, []⟩

/-- The end of a run that fails. -/
def Failure.outcome (failure : Failure) (events : List Event) : Outcome :=
  ⟨1, [failure.note], none, events⟩

/-- The end of a run that has something to deliver, given why it cannot be written if it
cannot. -/
def Delivery.outcome (delivery : Delivery) (refused : Option String) (events : List Event) :
    Outcome :=
  let status := delivery.status.toList
  match delivery.sink, refused with
  | .output, none => ⟨0, status, some (.output, delivery.text), events⟩
  | .file path, none =>
    ⟨0, status ++ [s!"wrote {path}"], some (.file path, delivery.text), events⟩
  | .file path, some reason =>
    ⟨1, status ++ [(Failure.unwritable path reason).note], none, events⟩
  | .output, some reason =>
    if delivery.checked then ⟨1, status ++ [(Failure.unprintable reason).note], none, events⟩
    else ⟨101, status ++ [s!"failed printing to stdout: {reason}"], none, events⟩

/-- Carries out an invocation. -/
def Invocation.deliver (invocation : Invocation) (surroundings : Surroundings) :
    Traced Failure Delivery := do
  let config ← Traced.ofExcept <|
    (invocation.configure surroundings.file surroundings.environment).mapError .config
  Traced.report (.configLoaded config.sentinel)
  invocation.task.perform config.sentinel (surroundings.read invocation.task)

/-- The end of a run, from what carrying out its invocation gave. -/
def Surroundings.outcomeOf (surroundings : Surroundings) (delivered : Traced Failure Delivery) :
    Outcome :=
  match delivered.result with
  | .ok delivery =>
    delivery.outcome (surroundings.refused? delivery.sink delivery.text) delivered.events
  | .error failure => failure.outcome delivered.events

/-- Runs a command line. -/
def run (surroundings : Surroundings) (words : List String) : Outcome :=
  match parse words with
  | .error stop => stop.outcome surroundings
  | .ok invocation => surroundings.outcomeOf (invocation.deliver surroundings)

end Semijoin.Command
