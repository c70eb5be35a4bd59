import Semijoin.Json.Members

/-!
# Pointers into documents

A pointer is the path from the root of a document to one of its values: keys lead into
objects and indices into arrays. Pointers are ordered segment by segment, keys before
indices.
-/

namespace Semijoin

/-- One step into a container. -/
inductive Segment where
  | key (name : String)
  | index (position : Nat)
  deriving DecidableEq, Repr

/-- The path to a value, from the root inwards. -/
abbrev Pointer := List Segment

namespace Segment

/-- Keys come before indices; keys are compared by code point. -/
def order : Segment → Segment → Ordering
  | .key a, .key b => compare a b
  | .key _, .index _ => .lt
  | .index _, .key _ => .gt
  | .index a, .index b => compare a b

/-- A character of a key. The slash separates segments, and the tilde marks an escape. -/
def charChars (c : Char) : List Char :=
  if c = '~' then ['~', '0'] else if c = '/' then ['~', '1'] else [c]

/-- The text of a segment. -/
def chars : Segment → List Char
  | .key name => name.toList.flatMap charChars
  | .index position => Nat.toDigits 10 position

end Segment

namespace Pointer

/-- The pointer to the whole document. -/
def root : Pointer := []

/-- The pointer to the member under a key. -/
def key (p : Pointer) (name : String) : Pointer := p ++ [.key name]

/-- The pointer to the element at a position. -/
def index (p : Pointer) (position : Nat) : Pointer := p ++ [.index position]

/-- The pointer to the enclosing value and the segment that leads on from there (`split_last`). The
root has none. -/
def splitLast? (p : Pointer) : Option (Pointer × Segment) :=
  p.getLast?.map fun last => (p.dropLast, last)

/-- The order of pointers: lexicographic, a pointer before those that continue it. -/
def order : Pointer → Pointer → Ordering := List.compareLex Segment.order

/-- The text of a pointer: every segment after a slash, and a single slash for the root. -/
def text (p : Pointer) : String :=
  match p with
  | [] => "/"
  | p => String.ofList (p.flatMap fun segment => '/' :: segment.chars)

/-- The value that a pointer leads to (`resolve`). -/
def resolve? : Pointer → Json → Option Json
  | [], value => some value
  | .key name :: rest, .object members => members.lookup name >>= resolve? rest
  | .index position :: rest, .array items => items[position]? >>= resolve? rest
  | _, _ => none

/-- A pointer that goes on from another one leads to what it finds there. -/
theorem resolve?_append (p q : Pointer) (value : Json) :
    resolve? (p ++ q) value = resolve? p value >>= resolve? q := by
  induction p generalizing value with
  | nil => rfl
  | cons segment rest ih =>
    cases segment with
    | key name =>
      cases value with
      | object members =>
        simp only [List.cons_append, resolve?, bind_assoc]
        congr 1
        exact funext ih
      | _ => rfl
    | index position =>
      cases value with
      | array items =>
        simp only [List.cons_append, resolve?, bind_assoc]
        congr 1
        exact funext ih
      | _ => rfl

/-- The document with another value at the place that a pointer leads to. -/
def replace? (replacement : Json) : Pointer → Json → Option Json
  | [], _ => some replacement
  | .key name :: rest, .object members => do
    let member ← members.lookup name
    let member ← replace? replacement rest member
    return .object (Json.setMember name member members)
  | .index position :: rest, .array items => do
    let item ← items[position]?
    let item ← replace? replacement rest item
    return .array (items.set position item)
  | _, _ => none

end Pointer

end Semijoin
