import Semijoin.Document.Host

/-!
# Putting clauses in the place of a host

In an array the clauses stand in the place of the host, one element each. As a member of
an object, or as the whole document, a host becomes the array of the clauses. A host is
replaced in a copy of the document, or in the document at hand.
-/

namespace Semijoin

namespace Segment

/-- The array or object that a segment leads into, with clauses in the place of the value that the
segment leads to. -/
def fillIn? (clauses : List Json) : Segment → Json → Option Json
  | .key name, .object members =>
    some (.object (Json.insertMember name (.array clauses) members))
  | .index position, .array items =>
    some (.array (items.take position ++ clauses ++ items.drop (position + 1)))
  | _, _ => none

end Segment

namespace Pointer

/-- The document with the value changed that a pointer leads to (`resolve_mut`). -/
def modify? (change : Json → Option Json) (p : Pointer) (document : Json) : Option Json := do
  let found ← p.resolve? document
  let changed ← change found
  p.replace? changed document

/-- The document with clauses in the place that a pointer leads to. -/
def fill? (clauses : List Json) : Pointer → Json → Option Json
  | [], _ => some (.array clauses)
  | .key name :: rest, .object members => do
    let member ← members.lookup name
    let member ← fill? clauses rest member
    return .object (Json.setMember name member members)
  | [.index position], .array items =>
    if position < items.length then
      some (.array (items.take position ++ clauses ++ items.drop (position + 1)))
    else none
  | .index position :: rest, .array items => do
    let item ← items[position]?
    let item ← fill? clauses rest item
    return .array (items.set position item)
  | _, _ => none

end Pointer

namespace Host

/-- Replaces a host by clauses. -/
def splice (host : Host) (clauses : List Json) (document : Json) : Except Fault Json :=
  match host.place.resolve? document with
  | none => throw (.malformed (.hostMissing host.label) host.place)
  | some value =>
    if holds host.label value then
      match host.place.fill? clauses document with
      | some document => return document
      | none => throw (.crowdedHost host.label host.place)
    else throw (.crowdedHost host.label host.place)

/-- Replaces a host by clauses in the document at hand. The place of the host is looked up first,
and then what it stands in is looked up to be changed. -/
def spliceInPlace (host : Host) (clauses : List Json) : EStateM Fault Json Unit := do
  match host.place.resolve? (← get) with
  | none => throw (.malformed (.hostMissing host.label) host.place)
  | some value =>
    unless holds host.label value do throw (.crowdedHost host.label host.place)
    match host.place.splitLast? with
    | none => set (Json.array clauses)
    | some (parent, segment) =>
      match parent.modify? (segment.fillIn? clauses) (← get) with
      | none => throw (.crowdedHost host.label host.place)
      | some document => set document

end Host

end Semijoin
