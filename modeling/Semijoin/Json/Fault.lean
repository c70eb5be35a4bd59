/-!
# Faults of JSON text

A text that is no JSON document shows it at some place for the first time. A fault tells what
is wrong there and where that place is.
-/

namespace Semijoin

/-- A place in a text: the number of the line, counted from one, and the number of bytes of
that line in front of the place. -/
structure Position where
  line : Nat
  column : Nat
  deriving DecidableEq, Repr

namespace Position

/-- The beginning of a text. -/
def start : Position := ⟨1, 0⟩

/-- The place behind the first bytes of a character. -/
def past (position : Position) (c : Char) (bytes : Nat) : Position :=
  if c = '\n' then ⟨position.line + 1, 0⟩ else ⟨position.line, position.column + bytes⟩

end Position

/-- What is wrong with a text that is no JSON document. -/
inductive ReadCause where
  | cutArray
  | cutObject
  | cutString
  | cutValue
  | noColon
  | noItemEnd
  | noMemberEnd
  | noValue
  | trailingComma
  | trailingText
  | unquotedKey
  | misspelled
  | badNumeral
  | oversizedNumber
  | badEscape
  | rawControl
  | unpairedSurrogate
  | missingTrail
  | deepNesting
  deriving DecidableEq, Repr

namespace ReadCause

/-- The text ends before the document does. -/
def isCut : ReadCause → Bool
  | .cutArray | .cutObject | .cutString | .cutValue => true
  | _ => false

/-- The wording of a cause. -/
def message : ReadCause → String
  | .cutArray => "EOF while parsing a list"
  | .cutObject => "EOF while parsing an object"
  | .cutString => "EOF while parsing a string"
  | .cutValue => "EOF while parsing a value"
  | .noColon => "expected `:`"
  | .noItemEnd => "expected `,` or `]`"
  | .noMemberEnd => "expected `,` or `\x7d`"
  | .noValue => "expected value"
  | .trailingComma => "trailing comma"
  | .trailingText => "trailing characters"
  | .unquotedKey => "key must be a string"
  | .misspelled => "expected ident"
  | .badNumeral => "invalid number"
  | .oversizedNumber => "number out of range"
  | .badEscape => "invalid escape"
  | .rawControl => "control character (\\u0000-\\u001F) found while parsing a string"
  | .unpairedSurrogate => "lone leading surrogate in hex escape"
  | .missingTrail => "unexpected end of hex escape"
  | .deepNesting => "recursion limit exceeded"

end ReadCause

/-- Why and where a text is no JSON document. -/
structure ReadFault where
  cause : ReadCause
  position : Position
  deriving DecidableEq, Repr

/-- A wording together with the place that it speaks of. -/
def Position.locate (position : Position) (wording : String) : String :=
  s!"{wording} at line {position.line} column {position.column}"

/-- The wording of a fault. -/
def ReadFault.message (fault : ReadFault) : String :=
  fault.position.locate fault.cause.message

end Semijoin
