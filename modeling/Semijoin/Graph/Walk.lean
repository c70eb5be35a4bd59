import Semijoin.Graph.Basic
import Semijoin.Join

/-!
# Walking a join graph

The walk goes depth first from the focus and takes the relations of an index in the order
in which they were written. A relation to an index that has not been visited becomes a
join that carries the clauses of that index and the joins found from there. A further
relation to the same neighbour becomes a join of its own, with the clauses only. A
relation to any other visited index is skipped, which cuts cycles.
-/

namespace Semijoin

/-- What the walk knows at some index. -/
structure Walk where
  /-- The indices reached so far, the latest first. -/
  visited : List String
  /-- The neighbours that were reached from this index. -/
  entered : List String
  /-- The joins found from this index. -/
  joins : List (Join × Bool)

/-- The indices visited and the joins found when the walk has gone on from an index. -/
structure Walked where
  visited : List String
  joins : List (Join × Bool)

namespace Graph

/-- Goes on from a neighbour: collects the joins found there, given the indices visited. -/
abbrev Onward := (index : String) → (visited : List String) → Compilation Walked

/-- Turns a relation into a join, which goes into the joins of the walk (`enter`). The neighbour of
an index-free endpoint is nowhere to go on from. -/
def joinAlong (graph : Graph) (sentinel : String) (onward : Onward) (walk : Walk) (edge : Edge)
    (side : Orientation) : Compilation Walk := do
  let join ← Join.build sentinel side.near.path side.far
  match side.far.index? with
  | none => return { walk with joins := walk.joins ++ [(join, edge.negate)] }
  | some other =>
    let join ← join.attachClauses (graph.queriesFor other)
    if other ∈ walk.entered then
      return { walk with joins := walk.joins ++ [(join, edge.negate)] }
    else
      let walked ← onward other (other :: walk.visited)
      let join ← join.attachJoins walked.joins
      return {
        visited := walked.visited
        entered := other :: walk.entered
        joins := walk.joins ++ [(join, edge.negate)] }

/-- Takes the walk past one relation. Without a way onward no join may be built. -/
def pass (graph : Graph) (sentinel : String) (onward : Option Onward) (index : String)
    (walk : Walk) (edge : Edge) : Compilation Walk :=
  match edge.orient? index with
  | none => return walk
  | some side =>
    -- A neighbour that was reached from this very index may be joined once more.
    match side.far.index?.filter fun other => other ∉ walk.entered ∧ other ∈ walk.visited with
    | some other => do
      Traced.report (.relationSkipped index other edge.origin)
      return walk
    | none =>
      match onward with
      | none => Traced.fail (.malformed .tooDeep edge.origin)
      | some onward => graph.joinAlong sentinel onward walk edge side

/-- Takes the walk past all relations, starting at an index (`expand`). -/
def scan (graph : Graph) (sentinel : String) (onward : Option Onward) (index : String)
    (visited : List String) : Compilation Walked := do
  let walk ← graph.relations.foldlM (graph.pass sentinel onward index) ⟨visited, [], []⟩
  return ⟨walk.visited, walk.joins⟩

/-- Walks on from an index, nesting at most the given number of joins. -/
def walkFrom (graph : Graph) (sentinel : String) : (levels : Nat) → Onward
  | 0 => graph.scan sentinel none
  | levels + 1 => graph.scan sentinel (some (graph.walkFrom sentinel levels))

/-- Compiles a join graph to the joins found from its focus. -/
def joins (graph : Graph) (sentinel : String) : Compilation (List (Join × Bool)) := do
  Traced.ofExcept graph.check
  Traced.ofExcept graph.checkFocus
  let walked ← graph.walkFrom sentinel maxJoinDepth graph.focus [graph.focus]
  Traced.report
    (.graphCompiled graph.focus graph.relations.length walked.visited.length
      walked.joins.length)
  return walked.joins

/-- Compiles a join graph to clauses. -/
def compile (graph : Graph) (sentinel : String) : Compilation (List Json) := do
  return Join.clauses (← graph.joins sentinel)

end Graph

end Semijoin
