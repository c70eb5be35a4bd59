import Semijoin.Endpoint

/-!
# Join graphs

A join graph relates indices by undirected edges and names the index being searched, its
focus. Clauses are given by index. An index is known by the name that its endpoints have
first.
-/

namespace Semijoin

/-- A relation between two endpoints (`RelationEdge`). The order in which they are written has no
meaning. -/
structure Edge where
  first : Endpoint
  second : Endpoint
  negate : Bool
  /-- Where the relation was written. -/
  origin : Pointer
  deriving DecidableEq, Repr

/-- The two sides of a relation as seen from an index. -/
structure Orientation where
  near : Endpoint
  far : Endpoint
  deriving DecidableEq, Repr

namespace Edge

/-- The sides of a relation as seen from an index that it touches (`oriented_from`). -/
def orient? (edge : Edge) (index : String) : Option Orientation :=
  if edge.first.index? = some index then some ⟨edge.first, edge.second⟩
  else if edge.second.index? = some index then some ⟨edge.second, edge.first⟩
  else none

/-- The index that a relation joins with itself (`is_loop`). -/
def loop? (edge : Edge) : Option String :=
  if edge.first.index? = edge.second.index? then edge.first.index? else none

end Edge

/-- Reads a pair of endpoints (`parse_pair`). -/
def Endpoint.readPair (place : Pointer) : Json → Except Fault (Endpoint × Endpoint)
  | .array [first, second] => do
    let first ← read (place.index 0) first
    let second ← read (place.index 1) second
    return (first, second)
  | _ => throw (.malformed .relationNotPair place)

/-- Reads a relation: a pair, or an object that holds a pair and may be negated. -/
def Edge.read (place : Pointer) : Json → Except Fault Edge
  | .array endpoints => do
    let (first, second) ← Endpoint.readPair place (.array endpoints)
    return { first, second, negate := false, origin := place }
  | .object members => do
    match members.lookup "relation" with
    | none => throw (.missingField "relation" place)
    | some endpoints =>
      -- Of a faulty `negate` and a faulty pair, the former is told.
      let negate ← Field.flag members "negate" place
      let (first, second) ← Endpoint.readPair (place.key "relation") endpoints
      return { first, second, negate, origin := place }
  | _ => throw (.malformed .edgeNotRelation place)

/-- Relations around a focus, with the clauses of each index (`JoinSetSpec`). -/
structure Graph where
  focus : String
  relations : List Edge
  queries : List (String × List Clause)
  deriving DecidableEq, Repr

namespace Graph

/-- The clauses given for an index (`queries_for`). -/
def queriesFor (graph : Graph) (index : String) : List Clause :=
  (graph.queries.lookup index).getD []

/-- Refuses a relation that joins an index with itself, whether or not the focus reaches it
(`validate`). -/
def check (graph : Graph) : Except Fault Unit :=
  graph.relations.forM fun edge =>
    match edge.loop? with
    | some index => throw (.selfRelation index edge.origin)
    | none => return ()

/-- Refuses clauses for the focus, which no join would carry. -/
def checkFocus (graph : Graph) : Except Fault Unit :=
  if (graph.queries.lookup graph.focus).isSome then throw (.rootFilters graph.focus)
  else return ()

/-- Reads the name of the focus. -/
def readFocus (members : List (String × Json)) (place : Pointer) : Except Fault String :=
  match Field.find? members "focus" with
  | none => throw (.missingField "focus" place)
  | some (.string focus) => return focus
  | some _ => throw (.malformed (.notString "focus") (place.key "focus"))

/-- Reads the relations. -/
def readRelations (members : List (String × Json)) (place : Pointer) :
    Except Fault (List Edge) :=
  match Field.find? members "relations" with
  | none => throw (.missingField "relations" place)
  | some (.array relations) => Field.items Edge.read (place.key "relations") 0 relations
  | some _ => throw (.malformed .relationsNotArray (place.key "relations"))

/-- Reads the clauses by index. -/
def readQueries (members : List (String × Json)) (place : Pointer) :
    Except Fault (List (String × List Clause)) :=
  match Field.find? members "queries" with
  | none => return []
  | some (.object byIndex) =>
    byIndex.mapM fun (index, clauses) => do
      return (index, ← Clause.readAll ((place.key "queries").key index) clauses)
  | some _ => throw (.malformed .clausesNotKeyed (place.key "queries"))

/-- Reads a join graph and checks it. -/
def read (place : Pointer) : Json → Except Fault Graph
  | .object members => do
    let focus ← readFocus members place
    let relations ← readRelations members place
    let queries ← readQueries members place
    let graph : Graph := { focus, relations, queries }
    graph.check
    return graph
  | _ => throw (.malformed .graphNotObject place)

end Graph

end Semijoin
