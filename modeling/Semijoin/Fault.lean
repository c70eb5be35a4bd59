import Semijoin.Label
import Semijoin.Pointer

/-!
# What can be wrong with a specification

Every fault is a cause together with the place where the document shows it. The wording
of the messages is kept apart from the causes.
-/

namespace Semijoin

/-- The deepest nesting of joins that is compiled (`MAX_JOIN_DEPTH`). -/
def maxJoinDepth : Nat := 128

/-- A value that does not have the form its place asks for. -/
inductive Malformation where
  | endpointNotObject
  | notString (field : String)
  | entryNotString (field : String)
  | notStrings (field : String)
  | notInteger (field : String)
  | notBoolean (field : String)
  | clauseNotObject
  | clausesNotArray
  | edgeNotRelation
  | relationNotPair
  | graphNotObject
  | relationsNotArray
  | clausesNotKeyed
  | chainNotArray
  | stepNotObject
  | branchesNotArray
  | chainEmpty
  | groupNotFirst
  | groupAlone
  | groupEmpty
  | groupLast
  | tooDeep
  | hostMissing (label : Label)
  deriving DecidableEq, Repr

namespace Malformation

/-- The wording of a malformation. -/
def reason : Malformation → String
  | .endpointNotObject => "a relation endpoint must be an object"
  | .notString field => s!"`{field}` must be a string"
  | .entryNotString field => s!"`{field}` entries must be strings"
  | .notStrings field => s!"`{field}` must be a string or an array of strings"
  | .notInteger field => s!"`{field}` must be an integer"
  | .notBoolean field => s!"`{field}` must be a boolean"
  | .clauseNotObject => "a filter clause must be an object"
  | .clausesNotArray => "`queries` must be an array of filter clauses"
  | .edgeNotRelation => "a relation must be a pair of endpoints"
  | .relationNotPair => "a relation must be an array of exactly two endpoints"
  | .graphNotObject => "`join_set` must be an object"
  | .relationsNotArray => "`relations` must be an array"
  | .clausesNotKeyed => "`queries` must be an object keyed by index"
  | .chainNotArray => "`join_sequence` must be an array"
  | .stepNotObject => "a sequence step must be an object"
  | .branchesNotArray => "`group` must be an array of sequences"
  | .chainEmpty => "a join sequence must contain at least one step"
  | .groupNotFirst => "a group may only appear as the first step of a sequence"
  | .groupAlone => "a group must be followed by the relation it attaches to"
  | .groupEmpty => "a group must contain at least one branch"
  | .groupLast => "a join sequence must end with a relation"
  | .tooDeep => s!"joins may not nest more than {maxJoinDepth} levels deep"
  | .hostMissing label => s!"no `{label.key}` object at this location"

end Malformation

/-- A fault in a specification or in the way a document holds it (`JoinError`). -/
inductive Fault where
  | missingField (field : String) (place : Pointer)
  | malformed (cause : Malformation) (place : Pointer)
  | unknownField (field : String) (place : Pointer)
  /-- Filters for the focus have no join to carry them. -/
  | rootFilters (index : String)
  /-- The endpoint on the root side of a chain has filters. -/
  | rootQueries (place : Pointer)
  | selfRelation (index : String) (place : Pointer)
  /-- The object that holds a specification has other members. -/
  | crowdedHost (label : Label) (place : Pointer)
  deriving DecidableEq, Repr

namespace Fault

/-- Where the document shows the fault (`location`). -/
def place? : Fault → Option Pointer
  | .missingField _ place | .malformed _ place | .unknownField _ place | .rootQueries place
  | .selfRelation _ place | .crowdedHost _ place => some place
  | .rootFilters _ => none

/-- The wording of a fault. -/
def message : Fault → String
  | .missingField field place => s!"missing field `{field}` at {place.text}"
  | .malformed cause place =>
    s!"malformed join specification at {place.text}: {cause.reason}"
  | .unknownField field place =>
    s!"unknown field `{field}` in relation endpoint at {place.text}"
  | .rootFilters index =>
    s!"filters for index `{index}` cannot be attached at the root of a join set; " ++
      "there is no parent join to carry them"
  | .rootQueries place =>
    s!"queries already set: the root-side endpoint at {place.text} must not carry `queries`"
  | .selfRelation index place =>
    "loops in the join set are not supported: relation at " ++
      s!"{place.text} joins index `{index}` with itself"
  | .crowdedHost label place =>
    s!"cannot replace `{label.key}` at {place.text}: " ++
      "the enclosing object must not contain other keys"

end Fault

end Semijoin
