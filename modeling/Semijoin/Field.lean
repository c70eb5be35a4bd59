import Semijoin.Fault

/-!
# Reading the fields of a specification

An optional field may be absent or null. A reader is given the members of an object and
the place of that object, and points at the field when its value has the wrong form.
-/

namespace Semijoin.Field

/-- The value of a field. A field that is null counts as absent. -/
def find? (members : List (String × Json)) (field : String) : Option Json :=
  match members.lookup field with
  | some .null => none
  | value => value

/-- Reads the elements of an array in order; the first fault wins. -/
def items {α : Type} (read : Pointer → Json → Except Fault α) (place : Pointer) :
    (position : Nat) → List Json → Except Fault (List α)
  | _, [] => return []
  | position, item :: rest => do
    let first ← read (place.index position) item
    let others ← items read place (position + 1) rest
    return first :: others

/-- Reads a text (`non_empty_string`). An empty one counts as absent. -/
def text? (members : List (String × Json)) (field : String) (place : Pointer) :
    Except Fault (Option String) :=
  match find? members field with
  | none => return none
  | some (.string text) => return if text.isEmpty then none else some text
  | some _ => throw (.malformed (.notString field) (place.key field))

/-- Reads an element of a list of texts. -/
def entry (field : String) (place : Pointer) : Json → Except Fault String
  | .string text => return text
  | _ => throw (.malformed (.entryNotString field) place)

/-- Reads a list of texts (`string_list`). A single text is a list of one. -/
def texts (members : List (String × Json)) (field : String) (place : Pointer) :
    Except Fault (List String) :=
  match find? members field with
  | none => return []
  | some (.string text) => return [text]
  | some (.array values) => items (entry field) (place.key field) 0 values
  | some _ => throw (.malformed (.notStrings field) (place.key field))

/-- Reads a truth value, false when it is absent (`parse_negate`). -/
def flag (members : List (String × Json)) (field : String) (place : Pointer) :
    Except Fault Bool :=
  match find? members field with
  | none => return false
  | some (.bool value) => return value
  | some _ => throw (.malformed (.notBoolean field) (place.key field))

end Semijoin.Field
