/-!
# Command-line arguments

The words of a command line are read from left to right. Options of the program may stand
before or after the name of a command, options of a command only after it. A word that
asks for help or for the version ends the reading, as does a word that has no place.
-/

namespace Semijoin.Command

/-- Where on the command line a word stands: before the name of a command, or after it. -/
inductive Scope where
  | program
  | compile
  | verify
  | locate
  /-- The command that shows help texts. -/
  | guide
  deriving DecidableEq, Repr

/-- The options of the program and of its commands. -/
inductive Choice where
  | help
  | version
  | verbose
  | config
  | out
  | multisearch
  | pretty
  | json
  deriving DecidableEq, Repr

namespace Choice

/-- The option is followed by a value. -/
def takesValue : Choice → Bool
  | .config | .out => true
  | .help | .version | .verbose | .multisearch | .pretty | .json => false

/-- The long form of an option, without its dashes. -/
def long : Choice → String
  | .help => "help"
  | .version => "version"
  | .verbose => "verbose"
  | .config => "config"
  | .out => "out"
  | .multisearch => "msearch"
  | .pretty => "pretty"
  | .json => "json"

/-- The short form of an option, without its dash. -/
def short? : Choice → Option Char
  | .help => some 'h'
  | .version => some 'V'
  | .verbose => some 'v'
  | .out => some 'o'
  | .config | .multisearch | .pretty | .json => none

/-- How an option is written: in its long form, with a name for its value. -/
def usage (choice : Choice) : String :=
  match choice with
  | .verbose => "--verbose..."
  | .config => "--config <CONFIG>"
  | .out => "--out <OUT>"
  | .help | .version | .multisearch | .pretty | .json => s!"--{choice.long}"

end Choice

namespace Scope

/-- The options that may stand somewhere, in the order in which they are listed. -/
def choices : Scope → List Choice
  | .program => [.verbose, .config, .help, .version]
  | .compile => [.out, .verbose, .config, .multisearch, .pretty, .help]
  | .verify => [.verbose, .config, .help]
  | .locate => [.json, .verbose, .config, .help]
  | .guide => []

/-- The commands, in the order in which they are listed. -/
def commands : List Scope := [.compile, .verify, .locate, .guide]

/-- The name of the program or of a command. -/
def name : Scope → String
  | .program => "filterjoin"
  | .compile => "compile"
  | .verify => "verify"
  | .locate => "locate"
  | .guide => "help"

/-- The command with a name. -/
def ofCommand? (word : String) : Option Scope :=
  commands.find? fun scope => scope.name = word

end Scope

/-- What is wrong with a command line. -/
inductive Misuse where
  | unknownOption (word : String)
  | unknownCommand (word : String)
  | unexpectedWord (word : String)
  /-- The name of a command stands behind the word after which there are no options. -/
  | hiddenCommand (word : String)
  | missingCommand
  | missingValue (choice : Choice)
  | emptyInput
  | unwantedValue (choice : Choice) (value : String)
  | repeated (choice : Choice)
  | conflict (first second : Choice)
  deriving DecidableEq, Repr

/-- The wording of a value that is missing for an argument. -/
def Misuse.noValue (usage : String) : String :=
  s!"a value is required for '{usage}' but none was supplied"

/-- The wording of a misuse. -/
def Misuse.message : Misuse → String
  | .unknownOption word | .unexpectedWord word => s!"unexpected argument '{word}' found"
  | .unknownCommand word => s!"unrecognized subcommand '{word}'"
  | .hiddenCommand word => s!"subcommand '{word}' exists; to use it, remove the '--' before it"
  | .missingCommand => s!"'{Scope.program.name}' requires a subcommand but one was not provided"
  | .missingValue choice => noValue choice.usage
  | .emptyInput => noValue "[INPUT]"
  | .unwantedValue choice value =>
    s!"unexpected value '{value}' for '{choice.usage}' found; no more were expected"
  | .repeated choice => s!"the argument '{choice.usage}' cannot be used multiple times"
  | .conflict first second =>
    s!"the argument '{first.usage}' cannot be used with '{second.usage}'"

/-- Why reading the words comes to an early end. -/
inductive Stop where
  | help (scope : Scope)
  | version
  /-- There is nothing on the command line. -/
  | bare
  | misuse (misuse : Misuse)
  deriving DecidableEq, Repr

/-- The options read so far in one scope, and the name of the input. -/
structure Settings where
  verbosity : Nat
  config : Option String
  out : Option String
  /-- The flags that may be given once, in the order in which they were. -/
  flags : List Choice
  input : Option String
  deriving DecidableEq, Repr

namespace Settings

/-- No option has been read. -/
def none : Settings := ⟨0, .none, .none, [], .none⟩

/-- Takes a flag that may be given once. -/
def once (settings : Settings) (choice : Choice) : Except Stop Settings :=
  if settings.flags.contains choice then throw (.misuse (.repeated choice))
  else return { settings with flags := settings.flags ++ [choice] }

/-- Takes an option that has no value. -/
def takeFlag (scope : Scope) (settings : Settings) (choice : Choice) : Except Stop Settings :=
  match choice with
  | .help => throw (.help scope)
  | .version => throw .version
  | .verbose => return { settings with verbosity := settings.verbosity + 1 }
  | .multisearch | .pretty | .json => settings.once choice
  | .config | .out => throw (.misuse (.missingValue choice))

/-- The value of an option that may be given once. -/
def only (choice : Choice) (given : Option String) (value : String) : Except Stop String :=
  if given.isSome then throw (.misuse (.repeated choice))
  else if value.isEmpty then throw (.misuse (.missingValue choice))
  else return value

/-- Takes an option with its value. -/
def takeValue (settings : Settings) (choice : Choice) (value : String) : Except Stop Settings :=
  match choice with
  | .config => return { settings with config := some (← only choice settings.config value) }
  | .out => return { settings with out := some (← only choice settings.out value) }
  | _ => throw (.misuse (.unwantedValue choice value))

/-- Takes the name of the input. -/
def takeInput (settings : Settings) (word : String) : Except Stop Settings :=
  if settings.input.isSome then throw (.misuse (.unexpectedWord word))
  else if word.isEmpty then throw (.misuse .emptyInput)
  else return { settings with input := some word }

end Settings

/-- The option that a short form names in a scope. -/
def Scope.short? (scope : Scope) (letter : Char) : Option Choice :=
  scope.choices.find? fun choice => choice.short? = some letter

/-- The option that a long form names in a scope. -/
def Scope.long? (scope : Scope) (name : String) : Option Choice :=
  scope.choices.find? fun choice => choice.long = name

/-- Settings, and the option that waits for the next word as its value. -/
abbrev Progress := Settings × Option Choice

/-- Reads the letters of a word of short options. What follows the letter of an option with
a value is that value, after an equals sign or not. -/
def readLetters (scope : Scope) (settings : Settings) : List Char → Except Stop Progress
  | [] => return (settings, none)
  | letter :: rest =>
    match scope.short? letter with
    | none => throw (.misuse (.unknownOption (String.ofList ['-', letter])))
    | some choice =>
      if choice.takesValue then
        match rest with
        | [] => return (settings, some choice)
        | '=' :: value => return (← settings.takeValue choice (String.ofList value), none)
        | value => return (← settings.takeValue choice (String.ofList value), none)
      else do
        readLetters scope (← settings.takeFlag scope choice) rest

/-- Reads a long option, given without its dashes. An equals sign separates its value. -/
def readLong (scope : Scope) (settings : Settings) (word : List Char) : Except Stop Progress :=
  let name := String.ofList (word.takeWhile (· ≠ '='))
  match scope.long? name, word.dropWhile (· ≠ '=') with
  | none, _ => throw (.misuse (.unknownOption s!"--{name}"))
  | some choice, [] =>
    if choice.takesValue then return (settings, some choice)
    else return (← settings.takeFlag scope choice, none)
  | some choice, _ :: value =>
    if choice.takesValue then return (← settings.takeValue choice (String.ofList value), none)
    else throw (.misuse (.unwantedValue choice (String.ofList value)))

/-- What the form of a word makes of it. -/
inductive Word where
  | separator
  | long (rest : List Char)
  | letters (rest : List Char)
  | plain

/-- The form of a word. A lone dash is no option. -/
def Word.ofString (word : String) : Word :=
  match word.toList with
  | ['-', '-'] => .separator
  | '-' :: '-' :: rest => .long rest
  | '-' :: letter :: rest => .letters (letter :: rest)
  | _ => .plain

/-- Reads one word that is an option. There is no result for other words. -/
def readOption? (scope : Scope) (settings : Settings) (word : String) :
    Option (Except Stop Progress) :=
  match Word.ofString word with
  | .long rest => some (readLong scope settings rest)
  | .letters rest => some (readLetters scope settings rest)
  | .separator | .plain => none

/-- The unknown option that a word begins with, if it begins with one. -/
def unknownOption? (scope : Scope) (word : String) : Option String :=
  match Word.ofString word with
  | .long rest =>
    let name := String.ofList (rest.takeWhile (· ≠ '='))
    if (scope.long? name).isNone then some s!"--{name}" else none
  | .letters (letter :: _) =>
    if (scope.short? letter).isNone then some (String.ofList ['-', letter]) else none
  | .letters [] | .separator | .plain => none

/-- Gives a word to the option that waits for its value. A word that looks like an option
is none. -/
def readValue (scope : Scope) (settings : Settings) (choice : Choice) (word : String) :
    Except Stop Settings :=
  match Word.ofString word, unknownOption? scope word with
  | .plain, _ => settings.takeValue choice word
  | _, some option => throw (.misuse (.unknownOption option))
  | _, none => throw (.misuse (.missingValue choice))

/-- Reads the words after a separator, none of which is an option. -/
def readPlain (settings : Settings) : List String → Except Stop Settings
  | [] => return settings
  | word :: rest => do readPlain (← settings.takeInput word) rest

/-- Reads the words after the name of a command. -/
def readCommand (scope : Scope) : Progress → List String → Except Stop Settings
  | (settings, none), [] => return settings
  | (_, some choice), [] => throw (.misuse (.missingValue choice))
  | (settings, some choice), word :: rest => do
    readCommand scope (← readValue scope settings choice word, none) rest
  | (settings, none), word :: rest =>
    match readOption? scope settings word with
    | some progress => do readCommand scope (← progress) rest
    | none =>
      if word = "--" then readPlain settings rest
      else do readCommand scope (← settings.takeInput word, none) rest

/-- How the expanded input is laid out. -/
inductive Format where
  | compact
  | pretty
  | multisearch
  deriving DecidableEq, Repr

/-- What to do. An input or output that is not named is the standard one. -/
inductive Task where
  | compile (input out : Option String) (format : Format)
  | verify (input : Option String)
  | locate (input : Option String) (json : Bool)
  deriving DecidableEq, Repr

/-- A complete command line. -/
structure Invocation where
  verbosity : Nat
  config : Option String
  task : Task
  deriving DecidableEq, Repr

/-- The layout that the options ask for. Of two that exclude each other the first is told first. -/
def Settings.format (settings : Settings) : Except Stop Format :=
  match settings.flags with
  | first :: second :: _ => throw (.misuse (.conflict first second))
  | [.multisearch] => return .multisearch
  | [.pretty] => return .pretty
  | _ => return .compact

/-- The task of a command. -/
def Settings.task (scope : Scope) (settings : Settings) : Except Stop Task :=
  match scope with
  | .program | .guide => throw (.misuse .missingCommand)
  | .compile => return .compile settings.input settings.out (← settings.format)
  | .verify => return .verify settings.input
  | .locate => return .locate settings.input (settings.flags.contains .json)

/-- The invocation of a command. Where an option stands in both scopes, the one after the
name of the command counts. -/
def Settings.invocation (outer : Settings) (scope : Scope) (inner : Settings) :
    Except Stop Invocation := do
  let task ← inner.task scope
  return {
    verbosity := if inner.verbosity = 0 then outer.verbosity else inner.verbosity
    config := inner.config.or outer.config
    task }

/-- Reads the words after a request for help, which may name a command. -/
def readHelp : List String → Stop
  | [] => .help .program
  | word :: rest =>
    match Scope.ofCommand? word, rest with
    | some scope, [] => .help scope
    | some _, next :: _ => .misuse (.unknownCommand next)
    | none, _ => .misuse (.unknownCommand word)

/-- What is wrong with a command line that ends before the name of a command. -/
def Settings.noCommand (settings : Settings) : Stop :=
  if settings = none then .bare else .misuse .missingCommand

/-- What is wrong with the words after a separator that stands before the name of a command. -/
def Settings.behindSeparator (settings : Settings) : List String → Stop
  | [] => settings.noCommand
  | word :: _ =>
    if (Scope.ofCommand? word).isSome then .misuse (.hiddenCommand word)
    else .misuse (.unknownCommand word)

/-- Reads the words of a command line. -/
def readProgram : Progress → List String → Except Stop Invocation
  | (settings, none), [] => throw settings.noCommand
  | (_, some choice), [] => throw (.misuse (.missingValue choice))
  | (settings, some choice), word :: rest => do
    readProgram (← readValue .program settings choice word, none) rest
  | (settings, none), word :: rest =>
    match readOption? .program settings word with
    | some progress => do readProgram (← progress) rest
    | none =>
      match Scope.ofCommand? word with
      | some .guide => throw (readHelp rest)
      | some scope => do
        settings.invocation scope (← readCommand scope (.none, none) rest)
      | none =>
        if word = "--" then throw (settings.behindSeparator rest)
        else throw (.misuse (.unknownCommand word))

/-- The invocation that a command line stands for. -/
def parse (words : List String) : Except Stop Invocation :=
  readProgram (.none, none) words

/-- How much a command line asks to be told of its run. -/
def verbosityOf (words : List String) : Nat :=
  (parse words).toOption.elim 0 Invocation.verbosity

end Semijoin.Command
