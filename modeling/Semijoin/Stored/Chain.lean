import Semijoin.Chain.Basic
import Semijoin.Stored.Endpoint

/-!
# The stored form of join chains
-/

namespace Semijoin

/-- The stored form of a relation step. -/
def Hop.toStored (hop : Hop) : Json :=
  .object [
    ("negate", .bool hop.negate),
    ("origin", hop.origin.toStored),
    ("relation", .array [hop.joined.toStored, hop.filtered.toStored])]

/-- Reads a stored relation step. -/
def Hop.ofStored? (value : Json) : Option Hop := do
  let members ← (Form.relation "relation").members? value
  let (joined, filtered) ← Stored.required? members "relation" (Stored.pair? Endpoint.ofStored?)
  let negate ← Stored.optional? members "negate" false Stored.flag?
  let origin ← Stored.optional? members "origin" Pointer.root Pointer.ofStored?
  return { joined, filtered, negate, origin }

mutual

/-- The stored form of a chain. -/
def Chain.toStored : Chain → Json
  | ⟨origin, steps⟩ =>
    .object [("origin", origin.toStored), ("steps", .array (Step.storedAll steps))]

/-- The stored forms of steps. -/
def Step.storedAll : List Step → List Json
  | [] => []
  | step :: rest => step.toStored :: Step.storedAll rest

/-- The stored form of a step, under the name of its kind. -/
def Step.toStored : Step → Json
  | .relation hop => .object [("relation", hop.toStored)]
  | .group origin branches =>
    .object [("group", .object
      [("branches", .array (Chain.storedAll branches)), ("origin", origin.toStored)])]

/-- The stored forms of branches. -/
def Chain.storedAll : List Chain → List Json
  | [] => []
  | branch :: rest => branch.toStored :: Chain.storedAll rest

end

/-- The place at the end of a row, which may be missing. -/
def Pointer.ofRest? : List Json → Option Pointer
  | [] => some Pointer.root
  | [place] => Pointer.ofStored? place
  | _ => none

mutual

/-- Reads a stored chain. -/
def Chain.ofStored? : Json → Option Chain
  | .object members => do
    let steps ← Step.inMembers? members
    let origin ← Stored.optional? members "origin" Pointer.root Pointer.ofStored?
    return ⟨origin, steps⟩
  | .array (steps :: rest) => do
    let steps ← Step.arrayOfStored? steps
    return ⟨← Pointer.ofRest? rest, steps⟩
  | _ => none

/-- Finds and reads the steps among the members of a stored chain. -/
def Step.inMembers? : List (String × Json) → Option (List Step)
  | [] => none
  | (field, value) :: rest =>
    if field = "steps" then Step.arrayOfStored? value else Step.inMembers? rest

/-- Reads an array of stored steps. -/
def Step.arrayOfStored? : Json → Option (List Step)
  | .array steps => Step.listOfStored? steps
  | _ => none

/-- Reads stored steps. -/
def Step.listOfStored? : List Json → Option (List Step)
  | [] => some []
  | step :: rest => do
    let first ← Step.ofStored? step
    let others ← Step.listOfStored? rest
    return first :: others

/-- Reads a stored step. -/
def Step.ofStored? : Json → Option Step
  | .object [(kind, value)] =>
    if kind = "relation" then (Hop.ofStored? value).map .relation
    else if kind = "group" then Step.groupOfStored? value
    else none
  | _ => none

/-- Reads a stored group. -/
def Step.groupOfStored? : Json → Option Step
  | .object members => do
    let branches ← Chain.inMembers? members
    let origin ← Stored.optional? members "origin" Pointer.root Pointer.ofStored?
    return .group origin branches
  | .array (branches :: rest) => do
    let branches ← Chain.arrayOfStored? branches
    return .group (← Pointer.ofRest? rest) branches
  | _ => none

/-- Finds and reads the branches among the members of a stored group. -/
def Chain.inMembers? : List (String × Json) → Option (List Chain)
  | [] => none
  | (field, value) :: rest =>
    if field = "branches" then Chain.arrayOfStored? value else Chain.inMembers? rest

/-- Reads an array of stored branches. -/
def Chain.arrayOfStored? : Json → Option (List Chain)
  | .array branches => Chain.listOfStored? branches
  | _ => none

/-- Reads stored branches. -/
def Chain.listOfStored? : List Json → Option (List Chain)
  | [] => some []
  | branch :: rest => do
    let first ← Chain.ofStored? branch
    let others ← Chain.listOfStored? rest
    return first :: others

end

/-- Reads a text that holds a stored chain. -/
def Chain.ofText? (text : String) : Option Chain :=
  Form.chain.read? text >>= Chain.ofStored?

end Semijoin
