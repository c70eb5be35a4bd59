/-!
# The two forms of specification

An object with a single member under one of these labels holds a join specification.
-/

namespace Semijoin

/-- What a specification describes: joins as a graph around a focus, or joins as a chain of steps
(`JoinLabel`). -/
inductive Label where
  | joinSet
  | joinSequence
  deriving DecidableEq, Repr

namespace Label

/-- Both labels, in the order in which they are looked for (`ALL`). -/
def all : List Label := [.joinSet, .joinSequence]

/-- The key that marks a specification (`as_str`). -/
def key : Label → String
  | .joinSet => "join_set"
  | .joinSequence => "join_sequence"

/-- The label with a key (`from_key`). -/
def ofKey? (key : String) : Option Label :=
  all.find? fun label => label.key = key

end Label

end Semijoin
