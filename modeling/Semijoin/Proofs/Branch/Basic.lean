import Semijoin.Graph.Basic
import Semijoin.Proofs.Chain.Climbing

/-!
# Trees of relations

A tree of relations can be written in two ways: as a join graph, which holds the relations in
any order, and as one join chain for each branch at the focus. The joins of a tree are told here
from the tree itself.
-/

namespace Semijoin

/-- A relation that leads away from the focus, the clauses of the index it leads to, and what
branches off there. -/
inductive Branch where
  | mk (near far : Endpoint) (negate flipped : Bool) (origin : Pointer) (clauses : List Clause)
    (branches : List Branch)

namespace Branch

/-- The index that a branch leads to. -/
def index? : Branch → Option String
  | mk _ far .. => far.index?

/-- The side of a branch from which it is seen first. -/
def side : Branch → Orientation
  | mk near far .. => ⟨near, far⟩

/-- The clauses of the index that a branch leads to. -/
def clauses : Branch → List Clause
  | mk _ _ _ _ _ clauses _ => clauses

/-- What branches off where a branch leads. -/
def branches : Branch → List Branch
  | mk _ _ _ _ _ _ branches => branches

/-- Where the relation of a branch was written. -/
def origin : Branch → Pointer
  | mk _ _ _ _ origin _ _ => origin

/-- The relation of a branch in a join graph. It may be written either way. -/
def edge : Branch → Edge
  | mk near far negate flipped origin _ _ =>
    if flipped then ⟨far, near, negate, origin⟩ else ⟨near, far, negate, origin⟩

/-- The step of a branch in a join chain. The far side carries the clauses. -/
def hop : Branch → Hop
  | mk near far negate _ origin clauses _ =>
    ⟨{ far with queries := clauses }, { near with queries := [] }, negate, origin⟩

mutual

/-- A branch with those that branch off from it. -/
def within : Branch → List Branch
  | mk near far negate flipped origin clauses branches =>
    mk near far negate flipped origin clauses branches :: allWithin branches

/-- Some branches with those that branch off from them. -/
def allWithin : List Branch → List Branch
  | [] => []
  | first :: rest => first.within ++ allWithin rest

end

/-- The indices that branches lead to, from the outside inwards. -/
def indices (branches : List Branch) : List String := (allWithin branches).filterMap index?

mutual

/-- A branch grows at an index: each relation starts where the one before leads to, and nothing
branches off where there is no index. -/
def GrowsAt (index : String) : Branch → Prop
  | mk near far _ _ _ _ branches =>
    near.index? = some index ∧
      match far.index? with
      | none => branches = []
      | some other => AllGrowAt other branches

/-- Branches grow at an index. -/
def AllGrowAt (index : String) : List Branch → Prop
  | [] => True
  | first :: rest => first.GrowsAt index ∧ AllGrowAt index rest

end

mutual

/-- The number of relations along the longest way up a branch. -/
def height : Branch → Nat
  | mk _ _ _ _ _ _ branches => maxHeight branches + 1

/-- The height of the highest of some branches. -/
def maxHeight : List Branch → Nat
  | [] => 0
  | first :: rest => max first.height (maxHeight rest)

end

/-- The steps that stand for chains before a relation: none, those of the only chain, or a
group. -/
def stepsBefore (origin : Pointer) : List Chain → List Step
  | [] => []
  | [only] => only.steps
  | first :: second :: rest => [.group origin (first :: second :: rest)]

mutual

/-- The steps of a branch as a join chain: what branches off comes before the relation. -/
def steps : Branch → List Step
  | mk near far negate flipped origin clauses branches =>
    stepsBefore origin (chains branches) ++
      [.relation (mk near far negate flipped origin clauses branches).hop]

/-- Branches as join chains. -/
def chains : List Branch → List Chain
  | [] => []
  | first :: rest => ⟨first.origin, first.steps⟩ :: chains rest

end

/-- A branch as a join chain. -/
def chain (branch : Branch) : Chain := ⟨branch.origin, branch.steps⟩

mutual

/-- The join of a branch, with the joins of what branches off nested in it. -/
def join (sentinel : String) : Branch → Join × Bool
  | mk near far negate flipped origin clauses branches =>
    (mk near far negate flipped origin clauses branches).hop.joinOver sentinel
      (joins sentinel branches)

/-- The joins of branches. -/
def joins (sentinel : String) : List Branch → List (Join × Bool)
  | [] => []
  | first :: rest => first.join sentinel :: joins sentinel rest

end

end Branch

end Semijoin
