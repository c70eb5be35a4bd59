import Semijoin.Json.Fault
import Semijoin.Json.Numeral

/-!
# Scalars of JSON text

A scalar is read character by character. `Scan` is what is being read, and `Progress` is what
the next character makes of it. A string with half of a surrogate pair in it and a number that
is too large are well formed and have no value: reading can go on behind them, for those who
want to know no more than where they end.
-/

namespace Semijoin

/-- A value without parts. -/
inductive Scalar where
  | null
  | bool (value : Bool)
  | number (value : Number)
  | string (value : String)
  deriving DecidableEq, Repr

/-- A scalar as a JSON value. -/
def Scalar.toJson : Scalar → Json
  | .null => .null
  | .bool value => .bool value
  | .number value => .number value
  | .string value => .string value

namespace Surrogate

/-- The code unit opens a surrogate pair. -/
def isLead (unit : Nat) : Bool := 0xD800 ≤ unit && unit < 0xDC00

/-- The code unit closes a surrogate pair. -/
def isTrail (unit : Nat) : Bool := 0xDC00 ≤ unit && unit < 0xE000

/-- The character of a surrogate pair. -/
def pair (lead trail : Nat) : Char :=
  Char.ofNat (0x10000 + (lead - 0xD800) * 0x400 + (trail - 0xDC00))

end Surrogate

/-- The part of a numeral that has just been read. -/
inductive NumeralPart where
  | sign
  | zero
  | whole
  | point
  | fraction
  | mark
  | exponentSign
  | exponent
  deriving DecidableEq, Repr

/-- A numeral may end after this part. -/
def NumeralPart.isComplete : NumeralPart → Bool
  | .zero | .whole | .fraction | .exponent => true
  | .sign | .point | .mark | .exponentSign => false

/-- A scalar that is being read. The characters of a string are kept last first, and no longer
once half of a surrogate pair has stood alone. -/
inductive Scan where
  | word (rest : List Char) (value : Scalar)
  | numeral (part : NumeralPart) (numeral : Numeral)
  | text (read : Option (List Char))
  | backslash (read : Option (List Char))
  /-- The digits of a code unit: `left` is the number of bytes still to come, and `unit` is
  missing once a byte was no digit. `lead` is the first half of a surrogate pair. -/
  | codeUnit (read : Option (List Char)) (lead : Option Nat) (left : Nat) (unit : Option Nat)
  | afterLead (read : Option (List Char)) (lead : Nat)
  | afterLeadBackslash (read : Option (List Char)) (lead : Nat)
  deriving DecidableEq, Repr

/-- What a character makes of a scalar. A scalar that has come to its end has a value, or there
is a cause why it has none. -/
inductive Progress where
  /-- The scalar goes on. -/
  | on (scan : Scan)
  /-- The character is the last one of the scalar. -/
  | last (value : Except ReadCause Scalar)
  /-- The scalar has ended in front of the character. -/
  | ended (value : Except ReadCause Scalar)
  /-- The first bytes of the character have no place in the scalar. -/
  | broken (cause : ReadCause) (bytes : Nat)
  /-- With this character the scalar is known to have no value; this is how it goes on. -/
  | flawed (cause : ReadCause) (next : Progress)

namespace Scan

/-- The value of a decimal digit. -/
def digit? (c : Char) : Option Nat :=
  if c.isDigit then some (c.toNat - '0'.toNat) else none

/-- The value of a hexadecimal digit. -/
def hexDigit? (c : Char) : Option Nat :=
  if c.isDigit then some (c.toNat - '0'.toNat)
  else if 'a' ≤ c ∧ c ≤ 'f' then some (c.toNat - 'a'.toNat + 10)
  else if 'A' ≤ c ∧ c ≤ 'F' then some (c.toNat - 'A'.toNat + 10)
  else none

/-- The character that a letter stands for after a backslash. -/
def escaped? : Char → Option Char
  | '"' => some '"'
  | '\\' => some '\\'
  | '/' => some '/'
  | 'b' => some '\x08'
  | 'f' => some '\x0c'
  | 'n' => some '\n'
  | 'r' => some '\r'
  | 't' => some '\t'
  | _ => none

/-- The scalar that begins with a character. -/
def begin? : Char → Option Scan
  | '"' => some (.text (some []))
  | 't' => some (.word ['r', 'u', 'e'] (.bool true))
  | 'f' => some (.word ['a', 'l', 's', 'e'] (.bool false))
  | 'n' => some (.word ['u', 'l', 'l'] .null)
  | '-' => some (.numeral .sign (.start true))
  | '0' => some (.numeral .zero (.start false))
  | c => (digit? c).map fun digit => .numeral .whole ((Numeral.start false).wholeDigit digit)

/-- The value of a numeral that is complete. -/
def numeralValue (n : Numeral) : Except ReadCause Scalar :=
  match n.number? with
  | some number => .ok (.number number)
  | none => .error .oversizedNumber

/-- Takes a numeral past a digit. -/
def stepDigit (part : NumeralPart) (n : Numeral) (digit : Nat) : Progress :=
  match part with
  | .sign =>
    .on (if digit = 0 then .numeral .zero n else .numeral .whole (n.wholeDigit digit))
  -- No digit may follow a leading zero.
  | .zero => .broken .badNumeral 1
  | .whole => .on (.numeral .whole (n.wholeDigit digit))
  | .point | .fraction => .on (.numeral .fraction (n.fractionDigit digit))
  | .mark | .exponentSign | .exponent =>
    let next := Progress.on (.numeral .exponent (n.exponentDigit digit))
    if n.overflows digit then .flawed .oversizedNumber next else next

/-- Takes a numeral past a character. One that the numeral cannot contain ends it, unless the
numeral is incomplete. -/
def stepNumeral (part : NumeralPart) (n : Numeral) (c : Char) : Progress :=
  match digit? c with
  | some digit => stepDigit part n digit
  | none =>
    match part, c with
    | .zero, '.' | .whole, '.' => .on (.numeral .point n.point)
    | .zero, 'e' | .zero, 'E' | .whole, 'e' | .whole, 'E' | .fraction, 'e' | .fraction, 'E' =>
      .on (.numeral .mark n.exponentMark)
    | .mark, '+' => .on (.numeral .exponentSign n)
    | .mark, '-' => .on (.numeral .exponentSign (n.exponentSign true))
    | part, _ =>
      if part.isComplete then .ended (numeralValue n) else .broken .badNumeral 1

/-- The value of a string that is complete. -/
def textValue (read : Option (List Char)) : Except ReadCause Scalar :=
  match read with
  | some read => .ok (.string (String.ofList read.reverse))
  | none => .error .unpairedSurrogate

/-- Takes a string past a character. -/
def stepText (read : Option (List Char)) (c : Char) : Progress :=
  if c = '"' then .last (textValue read)
  else if c = '\\' then .on (.backslash read)
  else if c.toNat < 0x20 then .broken .rawControl 1
  else .on (.text (read.map (c :: ·)))

/-- Takes a string past the character after a backslash. -/
def stepBackslash (read : Option (List Char)) (c : Char) : Progress :=
  if c = 'u' then .on (.codeUnit read none 4 (some 0))
  else match escaped? c with
    | some c => .on (.text (read.map (c :: ·)))
    | none => .broken .badEscape 1

/-- The end of a code unit. -/
def endCodeUnit (read : Option (List Char)) (lead : Option Nat) (unit : Nat) : Progress :=
  match lead with
  | none =>
    if Surrogate.isLead unit then .on (.afterLead read unit)
    else if Surrogate.isTrail unit then .flawed .unpairedSurrogate (.on (.text none))
    else .on (.text (read.map (Char.ofNat unit :: ·)))
  | some lead =>
    if Surrogate.isTrail unit then .on (.text (read.map (Surrogate.pair lead unit :: ·)))
    else .flawed .unpairedSurrogate (.on (.text none))

/-- Takes the digits of a code unit past a character. -/
def stepCodeUnit (read : Option (List Char)) (lead : Option Nat) (left : Nat)
    (unit : Option Nat) (c : Char) : Progress :=
  -- The four places are bytes: a character of several bytes takes up several of them.
  let unit := match unit, hexDigit? c with
    | some unit, some digit => some (unit * 16 + digit)
    | _, _ => none
  if c.utf8Size < left then .on (.codeUnit read lead (left - c.utf8Size) unit)
  else match unit with
    | some unit => endCodeUnit read lead unit
    | none => .broken .badEscape left

/-- Takes a scalar past one character. -/
def step (scan : Scan) (c : Char) : Progress :=
  match scan with
  | .word [] _ => .broken .misspelled 1
  | .word (expected :: rest) value =>
    if c ≠ expected then .broken .misspelled 1
    else if rest.isEmpty then .last (.ok value)
    else .on (.word rest value)
  | .numeral part n => stepNumeral part n c
  | .text read => stepText read c
  | .backslash read => stepBackslash read c
  | .codeUnit read lead left unit => stepCodeUnit read lead left unit c
  -- Only an escape can be the second half of a pair.
  | .afterLead read lead =>
    if c = '\\' then .on (.afterLeadBackslash read lead)
    else .flawed .missingTrail (stepText none c)
  | .afterLeadBackslash read lead =>
    if c = 'u' then .on (.codeUnit read (some lead) 4 (some 0))
    else .flawed .missingTrail (stepBackslash none c)

/-- The value of a scalar at the end of the text, or what is missing there. -/
def close : Scan → Except ReadCause (Except ReadCause Scalar)
  | .word _ _ => .error .cutValue
  | .numeral part n => if part.isComplete then .ok (numeralValue n) else .error .cutValue
  | .text _ | .backslash _ | .codeUnit _ _ _ _ | .afterLead _ _ | .afterLeadBackslash _ _ =>
    .error .cutString

end Scan

end Semijoin
