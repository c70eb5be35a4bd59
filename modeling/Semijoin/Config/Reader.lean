import Semijoin.Json.Grammar
import Semijoin.Json.Writer
import Semijoin.Text.Quoted

/-!
# Reading configuration files

A configuration is an object with at most the member `sentinel_index`, or an array of at
most the value of that member. The parts of a text are judged as they are read, so a value of
the wrong kind is refused even if the text is broken further on.
-/

namespace Semijoin.ConfigText

/-- The only field of a configuration. -/
def field : String := "sentinel_index"

/-- What stands in the place of a value of another kind. -/
inductive Found where
  | scalar (value : Scalar)
  | object
  | array
  deriving DecidableEq, Repr

/-- The wording of what was found. -/
def Found.description : Found → String
  | .scalar .null => "null"
  | .scalar (.bool true) => "boolean `true`"
  | .scalar (.bool false) => "boolean `false`"
  | .scalar (.number (.integer value)) =>
    s!"integer `{String.ofList (Number.chars (.integer value))}`"
  | .scalar (.number (.float bits)) =>
    s!"floating point `{String.ofList (Number.chars (.float bits))}`"
  | .scalar (.string text) => "string " ++ Text.quoted text
  | .object => "map"
  | .array => "sequence"

/-- How a JSON text fails to be a configuration. -/
inductive Misfit where
  | unknownField (name : String)
  | repeatedField
  | notText (found : Found)
  | notConfig (found : Found)
  deriving DecidableEq, Repr

/-- The wording of a misfit. -/
def Misfit.message : Misfit → String
  | .unknownField name => s!"unknown field `{name}`, expected `{field}`"
  | .repeatedField => s!"duplicate field `{field}`"
  | .notText found => s!"invalid type: {found.description}, expected a string"
  | .notConfig found => s!"invalid type: {found.description}, expected struct CompilerConfig"

/-- Why a text is no configuration. A misfit is told with the place where reading stopped. -/
inductive Failure where
  | notJson (fault : ReadFault)
  | misfit (reason : Misfit) (position : Position)
  deriving DecidableEq, Repr

/-- The wording of a failure. -/
def Failure.message : Failure → String
  | .notJson fault => fault.message
  | .misfit reason position => position.locate reason.message

/-- What may come next. A value is kept once it has been read. -/
inductive Stage where
  | config
  | firstKey
  | key (value : String)
  | colon
  | member
  | afterMember (value : String)
  | firstItem
  | afterItem (value : String)
  /-- A comma stands behind the only value of an array. -/
  | surplus
  /-- A key has been read that has no place. -/
  | misplaced (misfit : Misfit)
  | done (value : Option String)
  deriving DecidableEq, Repr

/-- The place of a scalar: a key has the value of the field before it, if there was one. -/
inductive Place where
  | config
  | key (before : Option String)
  | member
  | item
  deriving DecidableEq, Repr

/-- Reads the first character of the only value. -/
def meetText (place : Place) (position : Position) (c : Char) :
    Except Failure (Move Stage Place) :=
  if c = '[' then throw (.misfit (.notText .array) position)
  else if c = '\x7b' then throw (.misfit (.notText .object) position)
  else return .scalar place

/-- Reads a character between scalars. -/
def meet (stage : Stage) (position : Position) (c : Char) :
    Except Failure (Move Stage Place) :=
  let behind := position.past c 1
  let refuse (cause : ReadCause) := throw (.notJson ⟨cause, behind⟩)
  match stage with
  | .config =>
    if c = '[' then return .on .firstItem
    else if c = '\x7b' then return .on .firstKey
    else return .scalar .config
  | .firstKey =>
    if c = '"' then return .scalar (.key none)
    else if c = '\x7d' then return .on (.done none)
    else refuse .unquotedKey
  | .key before =>
    if c = '"' then return .scalar (.key (some before))
    else refuse (if c = '\x7d' then .trailingComma else .unquotedKey)
  | .colon => if c = ':' then return .on .member else refuse .noColon
  | .member => meetText .member position c
  | .afterMember value =>
    if c = ',' then return .on (.key value)
    else if c = '\x7d' then return .on (.done (some value))
    else refuse .noMemberEnd
  | .firstItem =>
    if c = ']' then return .on (.done none) else meetText .item position c
  | .afterItem value =>
    if c = ',' then return .on .surplus
    else if c = ']' then return .on (.done (some value))
    else refuse .trailingText
  | .surplus => refuse (if c = ']' then .trailingComma else .trailingText)
  -- A closing brace is still read.
  | .misplaced misfit => throw (.misfit misfit (if c = '\x7d' then behind else position))
  | .done _ => refuse .trailingText

/-- Reads a key, after the value of the field if there was one before. -/
def takeKey (before : Option String) (name : String) : Stage :=
  if name ≠ field then .misplaced (.unknownField name)
  else if before.isSome then .misplaced .repeatedField
  else .colon

/-- Puts a scalar in its place. -/
def take (place : Place) (behind : Position) (value : Except ReadCause Scalar) :
    Except Failure Stage := do
  let value ← value.mapError fun cause => .notJson ⟨cause, behind⟩
  match place, value with
  | .config, value => throw (.misfit (.notConfig (.scalar value)) behind)
  | .key before, .string name => return takeKey before name
  | .key _, _ => throw (.notJson ⟨.unquotedKey, behind⟩)
  | .member, .string text => return .afterMember text
  | .item, .string text => return .afterItem text
  | .member, value | .item, value => throw (.misfit (.notText (.scalar value)) behind)

/-- What is missing when the text ends. -/
def finish (stage : Stage) (position : Position) : Except Failure (Option String) :=
  match stage with
  | .done value => return value
  | .config | .key _ | .member => throw (.notJson ⟨.cutValue, position⟩)
  | .firstItem | .afterItem _ => throw (.notJson ⟨.cutArray, position⟩)
  | .firstKey | .colon | .afterMember _ => throw (.notJson ⟨.cutObject, position⟩)
  | .surplus => throw (.notJson ⟨.trailingText, position⟩)
  | .misplaced misfit => throw (.misfit misfit position)

/-- The grammar of configurations. -/
def grammar : Grammar Stage Place Failure (Option String) where
  meet := meet
  take := take
  finish := finish
  tolerate fault := throw (.notJson fault)
  fault := .notJson

/-- The value of the field in a configuration, if it is there. -/
def read (text : String) : Except Failure (Option String) :=
  grammar.read .config text.toList

end Semijoin.ConfigText
