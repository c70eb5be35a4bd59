import Semijoin.Specification

/-!
# Finding specifications in a document

A host is an object whose only key is a label. Hosts are found in preorder: an object
before the values in it, members in the order of their keys, elements in the order of
their positions. An object with a label beside another key is a fault.
-/

namespace Semijoin

/-- The place of an object that holds a specification (`Located`). -/
structure Host where
  label : Label
  place : Pointer
  deriving DecidableEq, Repr

namespace Host

/-- The place of the specification itself (`spec_pointer`). -/
def specificationPlace (host : Host) : Pointer := host.place.key host.label.key

/-- The value is an object whose only key is the label. -/
def holds (label : Label) : Json → Bool
  | .object [(key, _)] => key = label.key
  | _ => false

/-- The hosts that an object itself is: one for each label among its keys, which must be
its only key. -/
def atObject (labels : List Label) (place : Pointer) (members : List (String × Json)) :
    Except Fault (List Host) :=
  (labels.filter fun label => (members.lookup label.key).isSome).mapM fun label =>
    if members.length = 1 then return { label, place }
    else throw (.crowdedHost label place)

mutual

/-- The hosts in a value that stands at a place (`visit`). -/
def inValue (labels : List Label) (place : Pointer) : Json → Except Fault (List Host)
  | .object members => do
    let here ← atObject labels place members
    let inside ← inMembers labels place members
    return here ++ inside
  | .array items => inItems labels place 0 items
  | _ => return []

/-- The hosts in the members of an object. -/
def inMembers (labels : List Label) (place : Pointer) :
    List (String × Json) → Except Fault (List Host)
  | [] => return []
  | (key, value) :: rest => do
    let first ← inValue labels (place.key key) value
    let others ← inMembers labels place rest
    return first ++ others

/-- The hosts in the elements of an array, from some position on. -/
def inItems (labels : List Label) (place : Pointer) :
    (position : Nat) → List Json → Except Fault (List Host)
  | _, [] => return []
  | position, item :: rest => do
    let first ← inValue labels (place.index position) item
    let others ← inItems labels place (position + 1) rest
    return first ++ others

end

/-- The hosts in a document. -/
def locate (labels : List Label) (document : Json) : Except Fault (List Host) :=
  inValue labels Pointer.root document

/-- Reads the specification of a host from the document as it now is (`parse_occurrence`). -/
def readIn (host : Host) (document : Json) : Except Fault Specification :=
  match host.specificationPlace.resolve? document with
  | some value => Specification.read host.label host.specificationPlace value
  | none => throw (.malformed (.hostMissing host.label) host.place)

end Host

end Semijoin
