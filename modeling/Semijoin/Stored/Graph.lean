import Semijoin.Graph.Basic
import Semijoin.Stored.Endpoint

/-!
# The stored form of join graphs
-/

namespace Semijoin

/-- The stored form of a relation. -/
def Edge.toStored (edge : Edge) : Json :=
  .object [
    ("endpoints", .array [edge.first.toStored, edge.second.toStored]),
    ("negate", .bool edge.negate),
    ("origin", edge.origin.toStored)]

/-- Reads a stored relation. -/
def Edge.ofStored? (value : Json) : Option Edge := do
  let members ← (Form.relation "endpoints").members? value
  let (first, second) ← Stored.required? members "endpoints" (Stored.pair? Endpoint.ofStored?)
  let negate ← Stored.optional? members "negate" false Stored.flag?
  let origin ← Stored.optional? members "origin" Pointer.root Pointer.ofStored?
  return { first, second, negate, origin }

namespace Graph

/-- The stored form of a join graph. -/
def toStored (graph : Graph) : Json :=
  .object [
    ("focus", .string graph.focus),
    ("queries", .object
      (graph.queries.map fun (index, clauses) => (index, .array (clauses.map Clause.toStored)))),
    ("relations", .array (graph.relations.map Edge.toStored))]

/-- Reads stored clauses by index. -/
def queriesOfStored? : Json → Option (List (String × List Clause))
  | .object byIndex => byIndex.mapM fun (index, clauses) => do
      return (index, ← Stored.array? Clause.ofStored? clauses)
  | _ => none

/-- Reads a stored join graph. -/
def ofStored? (value : Json) : Option Graph := do
  let members ← Form.graph.members? value
  return {
    focus := ← Stored.required? members "focus" Json.string?
    relations := ← Stored.required? members "relations" (Stored.array? Edge.ofStored?)
    queries := ← Stored.optional? members "queries" [] queriesOfStored? }

/-- Reads a text that holds a stored join graph. Every entry of `queries` is read, and of
several for one index the last stays. -/
def ofText? (text : String) : Option Graph := do
  let graph ← ofStored? (← Form.graph.read? text)
  return { graph with queries := Json.sortMembers graph.queries }

end Graph

end Semijoin
