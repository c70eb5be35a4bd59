import Semijoin.Field

/-!
# Filter clauses

Clauses are queries that a client attaches to an index. Their content is kept as it is, except
that a clause with a `query` member takes part in scoring.
-/

namespace Semijoin

/-- A clause that takes part in scoring, or one that only filters (`FilterClause`). -/
inductive Clause where
  | scored (body : Json)
  | filter (body : Json)
  deriving DecidableEq, Repr

namespace Clause

/-- The query that a clause holds. -/
def body : Clause → Json
  | .scored body | .filter body => body

/-- The clause takes part in scoring (`is_scored`). -/
def isScored : Clause → Bool
  | .scored _ => true
  | .filter _ => false

/-- The clause with the given body. It is scored when the body has a `query` member. -/
def ofBody (body : Json) : Clause :=
  if (body.member? "query").isSome then .scored body else .filter body

/-- Reads one clause. -/
def read (place : Pointer) : Json → Except Fault Clause
  | .object members => return ofBody (.object members)
  | _ => throw (.malformed .clauseNotObject place)

/-- Reads an array of clauses (`parse_clauses`). Null is an empty one. -/
def readAll (place : Pointer) : Json → Except Fault (List Clause)
  | .null => return []
  | .array values => Field.items read place 0 values
  | _ => throw (.malformed .clausesNotArray place)

end Clause

end Semijoin
