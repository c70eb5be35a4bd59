import Semijoin.Json.Basic
import Semijoin.Decimal.Layout

/-!
# Writing JSON text

One writer serves both layouts, which differ only in what stands at line breaks and after
keys. A double is written with the fewest digits that read back as the same double.
-/

namespace Semijoin

/-- Doubles are written with the point in its place from a hundred-thousandth up to ten to
the sixteenth. -/
def Number.layout : Decimal.Layout := ⟨-5, 15⟩

/-- The text of a double. -/
def Number.floatChars (bits : UInt64) : List Char :=
  let magnitude := Magnitude.ofBits bits
  let unsigned :=
    if magnitude.isZero then ['0', '.', '0'] else magnitude.shortest.chars Number.layout
  if bits.toNat < UInt64.size / 2 then unsigned else '-' :: unsigned

/-- The text of a number. -/
def Number.chars : Number → List Char
  | .integer value => if value < 0 then '-' :: digitChars value.natAbs else digitChars value.natAbs
  | .float bits => floatChars bits

namespace Json

/-- A hexadecimal digit in lower case. -/
def hexDigitChar (n : Nat) : Char := Nat.digitChar n

/-- A character inside a string. Quotes, backslashes and control characters are escaped. -/
def charChars (c : Char) : List Char :=
  if c = '"' then ['\\', '"']
  else if c = '\\' then ['\\', '\\']
  else if c = '\x08' then ['\\', 'b']
  else if c = '\x0c' then ['\\', 'f']
  else if c = '\n' then ['\\', 'n']
  else if c = '\r' then ['\\', 'r']
  else if c = '\t' then ['\\', 't']
  else if c.toNat < 0x20 then
    ['\\', 'u', '0', '0', hexDigitChar (c.toNat / 16), hexDigitChar (c.toNat % 16)]
  else [c]

/-- A string with its quotes. -/
def stringChars (text : String) : List Char :=
  '"' :: text.toList.flatMap charChars ++ ['"']

/-- How containers are laid out: everything on one line without blanks, or one element or
member on a line. -/
inductive Layout where
  | compact
  | indented
  deriving DecidableEq, Repr

/-- The text before an element, a member or a closing bracket that stands at some depth.
Lines are indented by two blanks for each level. -/
def Layout.lineBreak : Layout → (depth : Nat) → List Char
  | .compact, _ => []
  | .indented, depth => '\n' :: List.replicate (2 * depth) ' '

/-- The text between a key and its value. -/
def Layout.colon : Layout → List Char
  | .compact => [':']
  | .indented => [':', ' ']

mutual

/-- The text of a value that stands at some depth. -/
def chars (layout : Layout) (depth : Nat) : Json → List Char
  | .null => ['n', 'u', 'l', 'l']
  | .bool true => ['t', 'r', 'u', 'e']
  | .bool false => ['f', 'a', 'l', 's', 'e']
  | .number value => value.chars
  | .string text => stringChars text
  | .array [] => ['[', ']']
  | .array (item :: rest) =>
    '[' :: layout.lineBreak (depth + 1) ++ chars layout (depth + 1) item ++
      itemsChars layout (depth + 1) rest ++ layout.lineBreak depth ++ [']']
  | .object [] => ['\x7b', '\x7d']
  | .object ((key, value) :: rest) =>
    '\x7b' :: layout.lineBreak (depth + 1) ++ stringChars key ++ layout.colon ++
      chars layout (depth + 1) value ++
      membersChars layout (depth + 1) rest ++ layout.lineBreak depth ++ ['\x7d']

/-- The text of the further elements of an array. -/
def itemsChars (layout : Layout) (depth : Nat) : List Json → List Char
  | [] => []
  | item :: rest =>
    ',' :: layout.lineBreak depth ++ chars layout depth item ++ itemsChars layout depth rest

/-- The text of the further members of an object. -/
def membersChars (layout : Layout) (depth : Nat) : List (String × Json) → List Char
  | [] => []
  | (key, value) :: rest =>
    ',' :: layout.lineBreak depth ++ stringChars key ++ layout.colon ++
      chars layout depth value ++ membersChars layout depth rest

end

/-- The text of a value on one line. -/
def compact (value : Json) : String :=
  String.ofList (value.chars .compact 0)

/-- The text of a value over several lines. -/
def pretty (value : Json) : String :=
  String.ofList (value.chars .indented 0)

end Json

end Semijoin
