import Semijoin.Graph.Basic

/-!
# Join chains

A join chain lists its joins from the innermost to the outermost. Every step filters the
index that the next one collects from, and the last step filters the documents being
searched. In place of its first step a chain may have a group of branches, which are
chains themselves.
-/

namespace Semijoin

/-- A step that filters one endpoint by the values collected at the other (`RelationStep`). -/
structure Hop where
  joined : Endpoint
  filtered : Endpoint
  negate : Bool
  /-- Where the step was written. -/
  origin : Pointer
  deriving DecidableEq, Repr

mutual

/-- The steps of a chain, and where it was written (`JoinSequenceSpec`). -/
structure Chain where
  origin : Pointer
  steps : List Step

/-- A relation, or a group of branches (`JoinSequenceStep`). -/
inductive Step where
  | relation (hop : Hop)
  | group (origin : Pointer) (branches : List Chain)

end

namespace Step

/-- Where a step was written. -/
def origin : Step → Pointer
  | .relation hop => hop.origin
  | .group origin _ => origin

/-- Refuses a group in any place but the first. -/
def checkLater : Step → Except Fault Unit
  | .relation _ => return ()
  | .group origin _ => throw (.malformed .groupNotFirst origin)

/-- Refuses a last step that cannot be applied to the documents being searched: a group, or
a relation with clauses for them. -/
def checkLast : Step → Except Fault Unit
  | .relation hop =>
    if hop.filtered.queries.isEmpty then return ()
    else throw (.rootQueries ((hop.origin.key "relation").index 1))
  | .group origin _ => throw (.malformed .groupLast origin)

end Step

mutual

/-- Checks the order of the steps, in the branches of a group as well (`verify`). -/
def Chain.check : Chain → Except Fault Unit
  | ⟨origin, []⟩ => throw (.malformed .chainEmpty origin)
  | ⟨_, first :: rest⟩ => do
    first.checkFirst rest.isEmpty
    rest.forM Step.checkLater
    (rest.getLastD first).checkLast

/-- Checks a first step, which may be a group only if another step follows. -/
def Step.checkFirst (alone : Bool) : Step → Except Fault Unit
  | .relation _ => return ()
  | .group origin branches =>
    if alone then throw (.malformed .groupAlone origin)
    else if branches.isEmpty then throw (.malformed .groupEmpty origin)
    else Chain.checkAll branches

/-- Checks branches in order. -/
def Chain.checkAll : List Chain → Except Fault Unit
  | [] => return ()
  | branch :: rest => do
    branch.check
    Chain.checkAll rest

end

/-- Reads a step that is a relation. -/
def Hop.read (members : List (String × Json)) (place : Pointer) : Except Fault Hop :=
  match members.lookup "relation" with
  | none => throw (.missingField "relation" place)
  | some endpoints => do
    -- Of a faulty pair and a faulty `negate`, the former is told.
    let (joined, filtered) ← Endpoint.readPair (place.key "relation") endpoints
    let negate ← Field.flag members "negate" place
    return { joined, filtered, negate, origin := place }

mutual

/-- Reads a chain without checking the order of its steps (`parse_shape`). -/
def Chain.readShape (place : Pointer) : Json → Except Fault Chain
  | .array steps => return ⟨place, ← Step.readAll place 0 steps⟩
  | _ => throw (.malformed .chainNotArray place)

/-- Reads the steps of a chain. -/
def Step.readAll (place : Pointer) : (position : Nat) → List Json → Except Fault (List Step)
  | _, [] => return []
  | position, step :: rest => do
    let first ← Step.read (place.index position) step
    let others ← Step.readAll place (position + 1) rest
    return first :: others

/-- Reads a step (`parse_step`). It is a group if it has a member `group`. -/
def Step.read (place : Pointer) : Json → Except Fault Step
  | .object members =>
    match Step.readGroup? place members with
    | some group => group
    | none => return .relation (← Hop.read members place)
  | _ => throw (.malformed .stepNotObject place)

/-- Reads the group among the members of a step. -/
def Step.readGroup? (place : Pointer) : List (String × Json) → Option (Except Fault Step)
  | [] => none
  | (field, value) :: rest =>
    if field = "group" then some do
      return .group place (← Chain.readBranches (place.key "group") value)
    else Step.readGroup? place rest

/-- Reads the branches of a group. -/
def Chain.readBranches (place : Pointer) : Json → Except Fault (List Chain)
  | .array branches => Chain.readShapes place 0 branches
  | _ => throw (.malformed .branchesNotArray place)

/-- Reads the elements of a list of branches. -/
def Chain.readShapes (place : Pointer) :
    (position : Nat) → List Json → Except Fault (List Chain)
  | _, [] => return []
  | position, branch :: rest => do
    let first ← Chain.readShape (place.index position) branch
    let others ← Chain.readShapes place (position + 1) rest
    return first :: others

end

/-- Reads a chain and checks it. -/
def Chain.read (place : Pointer) (value : Json) : Except Fault Chain := do
  let chain ← Chain.readShape place value
  chain.check
  return chain

end Semijoin
