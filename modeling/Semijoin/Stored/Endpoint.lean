import Semijoin.Endpoint
import Semijoin.Stored.Form

/-!
# The stored form of endpoints

Specifications can be stored as JSON and taken up again without loss. On reading, members
that are not known are ignored, and a member that has a default may be absent. What is stored as
an object can also be read from the row of its members. A word among several can also be the key
of a single member that is null.
-/

namespace Semijoin

namespace Stored

/-- A member that must be there. -/
def required? {α : Type} (members : List (String × Json)) (field : String)
    (read : Json → Option α) : Option α :=
  members.lookup field >>= read

/-- A member that may be absent. -/
def optional? {α : Type} (members : List (String × Json)) (field : String) (default : α)
    (read : Json → Option α) : Option α :=
  match members.lookup field with
  | none => some default
  | some value => read value

/-- A truth value. -/
def flag? : Json → Option Bool
  | .bool value => some value
  | _ => none

/-- A text that may be missing, which is stored as null. -/
def ofText? : Option String → Json
  | some text => .string text
  | none => .null

/-- Reads a text that may be missing. -/
def text? : Json → Option (Option String)
  | .null => some none
  | .string text => some (some text)
  | _ => none

/-- The elements of an array. -/
def array? {α : Type} (read : Json → Option α) : Json → Option (List α)
  | .array items => items.mapM read
  | _ => none

/-- The elements of an array of two. -/
def pair? {α : Type} (read : Json → Option α) : Json → Option (α × α)
  | .array [first, second] => do return (← read first, ← read second)
  | _ => none

end Stored

/-- The stored form of a segment. -/
def Segment.toStored : Segment → Json
  | .key name => .string name
  | .index position => .number (.integer position)

/-- Reads a stored segment. -/
def Segment.ofStored? : Json → Option Segment
  | .string name => some (.key name)
  | .number (.integer position) => if 0 ≤ position then some (.index position.toNat) else none
  | _ => none

/-- The stored form of a pointer. -/
def Pointer.toStored (p : Pointer) : Json :=
  .object [("segments", .array (p.map Segment.toStored))]

/-- Reads a stored pointer. -/
def Pointer.ofStored? (value : Json) : Option Pointer := do
  let members ← Form.pointer.members? value
  Stored.required? members "segments" (Stored.array? Segment.ofStored?)

/-- The stored form of a label. -/
def Label.toStored (label : Label) : Json := .string label.key

/-- The stored form of a limit. -/
def TermsLimit.toStored : TermsLimit → Json
  | .unset => .string "Unset"
  | .capped cap => .object [("Capped", .number (.integer cap.toNat))]

/-- Reads a stored limit. -/
def TermsLimit.ofStored? : Json → Option TermsLimit
  | .string "Unset" => some .unset
  | .object [("Unset", .null)] => some .unset
  | .object [("Capped", .number (.integer cap))] =>
    if 0 ≤ cap ∧ cap < UInt64.size then some (.capped (.ofNat cap.toNat)) else none
  | _ => none

/-- The stored form of a clause. -/
def Clause.toStored : Clause → Json
  | .scored body => .object [("clause", body), ("kind", .string "scored")]
  | .filter body => .object [("clause", body), ("kind", .string "filter")]

/-- Reads a stored clause. Its kind is taken as given; in a row it is a plain word. -/
def Clause.ofStored? : Json → Option Clause
  | .array [.string "scored", body] => some (.scored body)
  | .array [.string "filter", body] => some (.filter body)
  | .object members => do
    let body ← members.lookup "clause"
    match ← members.lookup "kind" with
    | .string "scored" | .object [("scored", .null)] => return .scored body
    | .string "filter" | .object [("filter", .null)] => return .filter body
    | _ => none
  | _ => none

/-- The stored form of an endpoint. -/
def Endpoint.toStored (endpoint : Endpoint) : Json :=
  .object [
    ("indices", .array (endpoint.indices.map .string)),
    ("maxTermsPerShard", endpoint.maxTerms.toStored),
    ("orderBy", Stored.ofText? endpoint.orderBy),
    ("path", .string endpoint.path),
    ("queries", .array (endpoint.queries.map Clause.toStored)),
    ("termsEncoding", Stored.ofText? endpoint.encoding),
    ("types", .array (endpoint.types.map .string))]

/-- Reads a stored endpoint. -/
def Endpoint.ofStored? (value : Json) : Option Endpoint := do
  let members ← Form.endpoint.members? value
  return {
    path := ← Stored.required? members "path" Json.string?
    indices := ← Stored.required? members "indices" (Stored.array? Json.string?)
    types := ← Stored.required? members "types" (Stored.array? Json.string?)
    orderBy := ← Stored.optional? members "orderBy" none Stored.text?
    maxTerms := ← Stored.required? members "maxTermsPerShard" TermsLimit.ofStored?
    encoding := ← Stored.optional? members "termsEncoding" none Stored.text?
    queries := ← Stored.required? members "queries" (Stored.array? Clause.ofStored?) }

end Semijoin
