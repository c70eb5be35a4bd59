import Semijoin.Proofs.Document.Preorder

/-!
# The parts of specifications

A specification is made of parts: relations, endpoints, clauses, branches, fields. Which part a
value is can be told from the place where it stands, beginning at the host of the specification:
some parts have parts of their own under certain keys, others have elements that are all of one
kind. Nothing is asked of the values themselves except that they lead on to their parts, so a value
of the wrong form is still the part that its place makes it.
-/

namespace Semijoin

open Json

namespace Pointer

variable {document value : Json} {place : Pointer}

/-- The place of a member leads to it. -/
theorem resolve?_key {members : List (String × Json)} {name : String}
    (h : place.resolve? document = some (.object members))
    (hvalue : members.lookup name = some value) :
    (place.key name).resolve? document = some value := by
  rw [key, resolve?_append, h]
  simp [resolve?, hvalue]

/-- The place of an element leads to it. -/
theorem resolve?_index {items : List Json} {position : Nat}
    (h : place.resolve? document = some (.array items)) (hvalue : items[position]? = some value) :
    (place.index position).resolve? document = some value := by
  rw [index, resolve?_append, h]
  simp [resolve?, hvalue]

end Pointer

/-- What a specification is made of. -/
inductive Part where
  | graph
  | relations
  | edge
  | clausesByIndex
  | chain
  | step
  /-- A step that is not a group. -/
  | hop
  | branches
  | pair
  | endpoint
  | clauses
  | clause
  | text
  | texts
  | limit
  | flag
  deriving DecidableEq, Repr

namespace Part

/-- What stands under a label. -/
def ofLabel : Label → Part
  | .joinSet => graph
  | .joinSequence => chain

/-- The parts under the keys of an object. -/
def members : Part → List (String × Part)
  | graph => [("focus", text), ("relations", relations), ("queries", clausesByIndex)]
  | edge => [("relation", pair), ("negate", flag)]
  | step => [("group", branches)]
  | hop => [("relation", pair), ("negate", flag)]
  | endpoint => [("path", text), ("indices", texts), ("types", texts), ("orderBy", text),
      ("maxTermsPerShard", limit), ("termsEncoding", text), ("queries", clauses)]
  | _ => []

/-- What the elements of an array are. -/
def element? : Part → Option Part
  | relations => some edge
  | chain => some step
  | branches => some chain
  | pair => some endpoint
  | clauses => some clause
  | texts => some text
  | _ => none

/-- The fields that must be there. -/
def required : Part → List String
  | graph => ["focus", "relations"]
  | edge | hop => ["relation"]
  | endpoint => ["path"]
  | _ => []

/-- A value at a place of a document is a part of a specification. -/
inductive StandsAt (document : Json) : Part → Pointer → Json → Prop
  | specification {label : Label} {host : Pointer} {value : Json}
    (hhost : host.resolve? document = some (.object [(label.key, value)])) :
    StandsAt document (ofLabel label) (host.key label.key) value
  | member {part inner : Part} {place : Pointer} {members : List (String × Json)} {name : String}
    {value : Json} (h : StandsAt document part place (.object members))
    (hvalue : members.lookup name = some value) (hpart : (name, inner) ∈ part.members) :
    StandsAt document inner (place.key name) value
  | element {part inner : Part} {place : Pointer} {items : List Json} {position : Nat}
    {value : Json} (h : StandsAt document part place (.array items))
    (hvalue : items[position]? = some value) (hpart : part.element? = some inner) :
    StandsAt document inner (place.index position) value
  | byIndex {place : Pointer} {members : List (String × Json)} {index : String} {value : Json}
    (h : StandsAt document clausesByIndex place (.object members))
    (hvalue : members.lookup index = some value) :
    StandsAt document clauses (place.key index) value
  /-- A relation of a graph may be written as the pair alone. -/
  | bare {place : Pointer} {items : List Json}
    (h : StandsAt document edge place (.array items)) : StandsAt document pair place (.array items)
  | hop {place : Pointer} {members : List (String × Json)}
    (h : StandsAt document step place (.object members)) (hgroup : members.lookup "group" = none) :
    StandsAt document hop place (.object members)

/-- The place of a part leads to it. -/
theorem StandsAt.resolve? {document : Json} {part : Part} {place : Pointer} {value : Json}
    (h : part.StandsAt document place value) : place.resolve? document = some value := by
  induction h with
  | specification hhost => exact Pointer.resolve?_key hhost List.lookup_cons_self
  | member _ hvalue _ ih => exact Pointer.resolve?_key ih hvalue
  | element _ hvalue _ ih => exact Pointer.resolve?_index ih hvalue
  | byIndex _ hvalue ih => exact Pointer.resolve?_key ih hvalue
  | bare _ ih => exact ih
  | hop _ _ ih => exact ih

end Part

end Semijoin
