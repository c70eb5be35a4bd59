import Semijoin.Json.Members
import Semijoin.Json.Scan

/-!
# Drafts of JSON values

A draft is what a text holds before it counts as a value: the members of an object are as they
are written, in their order and as often as they are there, and a part that has no value stands
in its place with the fault that was found in it. A draft without such parts has a value.
-/

namespace Semijoin

/-- The key of a member, unless it is a string without a value. -/
abbrev Draft.Key := Except ReadFault String

/-- A JSON text taken apart. -/
inductive Draft where
  | scalar (value : Scalar)
  | array (items : List Draft)
  | object (members : List (Draft.Key × Draft))
  | flawed (fault : ReadFault)

namespace Draft

mutual

/-- The value of a draft. Members go to their places in the order of the keys, and of several
with one key the last stays. -/
def toJson : Draft → Except ReadFault Json
  | .scalar value => return value.toJson
  | .array items => return .array (← itemsToJson items)
  | .object members => return .object (Json.sortMembers (← membersToJson members))
  | .flawed fault => throw fault

/-- The values of the elements of an array. -/
def itemsToJson : List Draft → Except ReadFault (List Json)
  | [] => return []
  | item :: rest => return (← item.toJson) :: (← itemsToJson rest)

/-- The keys and values of the members of an object, as they are written. -/
def membersToJson : List (Key × Draft) → Except ReadFault (List (String × Json))
  | [] => return []
  | (key, value) :: rest => return (← key, ← value.toJson) :: (← membersToJson rest)

end

end Draft

end Semijoin
