import Semijoin.Command.Arguments

/-!
# Help texts

A help text tells what the program or a command does, how it is called, and what each of its
arguments is for, in columns.
-/

namespace Semijoin.Command

/-- What the program or a command does. -/
def Scope.purpose : Scope → String
  | .program =>
    "Compile declarative join_set / join_sequence specifications into filterjoin clauses"
  | .compile => "Rewrite every join specification into nested filterjoin clauses"
  | .verify => "Validate every join specification without rewriting anything"
  | .locate => "Print the location of every join specification"
  | .guide => "Print this message or the help of the given subcommand(s)"

/-- How the program or a command is called. -/
def Scope.usage : Scope → String
  | .program => "Usage: filterjoin [OPTIONS] <COMMAND>"
  | .compile => "Usage: filterjoin compile [OPTIONS] [INPUT]"
  | .verify => "Usage: filterjoin verify [OPTIONS] [INPUT]"
  | .locate => "Usage: filterjoin locate [OPTIONS] [INPUT]"
  | .guide => "Usage: filterjoin help [COMMAND]..."

/-- What an option is for. -/
def Choice.purpose : Choice → String
  | .help => "Print help"
  | .version => "Print version"
  | .verbose => "More logging on stderr (-v info, -vv debug, -vvv trace)"
  | .config => "JSON config file. `FILTERJOIN_SENTINEL_INDEX` overrides it"
  | .out => "Output file (stdout when omitted)"
  | .multisearch => "Treat the input as a newline-delimited multi-search body"
  | .pretty => "Pretty-print the rewritten document"
  | .json => "Emit a JSON array instead of `label<TAB>pointer` lines"

/-- An option in both of its forms. -/
def Choice.forms (choice : Choice) : String :=
  match choice.short? with
  | some letter => s!"-{letter}, {choice.usage}"
  | none => s!"    {choice.usage}"

/-- The argument of a command that is no option, and what it is for. -/
def Scope.argument? : Scope → Option (String × String)
  | .program => none
  | .compile | .verify | .locate => some ("[INPUT]", "Input document (stdin when omitted)")
  | .guide => some ("[COMMAND]...", "Print help for the subcommand(s)")

/-- Rows under a heading. The right column begins two blanks behind the longest text of the left
one. Without rows there is no heading either. -/
def columns (heading : String) (rows : List (String × String)) : String :=
  let width := (rows.map fun row => row.1.length).foldl max 0
  let row := fun (left, right) =>
    "  " ++ left.pushn ' ' (width - left.length) ++ "  " ++ right ++ "\n"
  if rows.isEmpty then "" else "\n" ++ heading ++ ":\n" ++ String.join (rows.map row)

/-- The help text of the program or of a command. -/
def Scope.help (scope : Scope) : String :=
  let commands := if scope = .program then commands else []
  scope.purpose ++ "\n\n" ++ scope.usage ++ "\n" ++
    columns "Commands" (commands.map fun command => (command.name, command.purpose)) ++
    columns "Arguments" scope.argument?.toList ++
    columns "Options" (scope.choices.map fun choice => (choice.forms, choice.purpose))

end Semijoin.Command
