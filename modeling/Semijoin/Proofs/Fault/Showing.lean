import Mathlib.Data.List.Chain
import Semijoin.Proofs.Fault.Parts
import Semijoin.Proofs.Specification.Grammar

/-!
# What faults say about documents

A fault tells what is wrong and where. Whether this is so can be seen from the document alone: from
the value at the place of the fault, from the part of a specification that its place makes it and,
if the fault is about the order of steps or about the nesting of joins, from what is around it.
Nothing is read or compiled here.
-/

namespace Semijoin

namespace Json

/-- An array. -/
def IsArray (value : Json) : Prop := ∃ items, value = .array items

/-- A step with a group of branches, in whatever form. -/
def IsGroup (value : Json) : Prop :=
  ∃ members branches, value = .object members ∧ members.lookup "group" = some branches

mutual

/-- How deep the joins of a chain nest. -/
def chainLevels : Json → Nat
  | .array steps => stepsLevels 0 steps
  | _ => 0

/-- How deep the joins of some steps nest, together with those below them. -/
def stepsLevels (below : Nat) : List Json → Nat
  | [] => below
  | step :: rest => stepsLevels (step.stepLevels below) rest

/-- How deep the joins of a step nest, together with those below it. A group has as many levels as
the deepest of its branches. -/
def stepLevels (below : Nat) : Json → Nat
  | .object members => (groupLevels? members).getD (below + 1)
  | _ => below + 1

/-- How deep the joins in a group nest, if there is one among the members of a step. -/
def groupLevels? : List (String × Json) → Option Nat
  | [] => none
  | (field, value) :: rest =>
    if field = "group" then some value.branchesLevels else groupLevels? rest

/-- How deep the joins of branches nest. -/
def branchesLevels : Json → Nat
  | .array branches => deepestLevels branches
  | _ => 0

/-- The levels of the deepest of some chains. -/
def deepestLevels : List Json → Nat
  | [] => 0
  | chain :: rest => max chain.chainLevels (deepestLevels rest)

end

/-- A relation as seen from one of its endpoints. -/
def Joins (relation near far : Json) : Prop :=
  IsRelation near far relation ∨ IsRelation far near relation

/-- Some relation joins two indices. -/
def Linked (relations : List Json) (index other : String) : Prop :=
  ∃ relation ∈ relations, ∃ near far, Joins relation near far ∧
    near.firstIndex? = some index ∧ far.firstIndex? = some other

/-- Links lead from an index over others to a last one, without coming back to any of them. -/
structure Leads (linked : String → String → Prop) (focus : String) (way : List String)
    (index : String) : Prop where
  nodup : (focus :: way).Nodup
  linked : List.IsChain linked (focus :: way)
  last : (focus :: way).getLast? = some index

end Json

open Json

variable (document : Json)

/-- The value at a place is a step of a chain, and the steps before it already nest as many joins as
may be nested. -/
def StepTooDeep (place : Pointer) (value : Json) : Prop :=
  ∃ (chain : Pointer) (steps : List Json) (position : Nat) (joined filtered : Json),
    place = chain.index position ∧
    Part.chain.StandsAt document chain (.array steps) ∧ steps[position]? = some value ∧
    IsChain (.array steps) ∧ IsStep joined filtered value ∧
    maxJoinDepth ≤ stepsLevels 0 (steps.take position)

/-- The value at a place is a relation of a graph. Over as many relations as joins may be nested one
comes from the focus to an index, from which it leads on, not back to an index on the way. -/
def RelationTooDeep (place : Pointer) (value : Json) : Prop :=
  ∃ (graph : Pointer) (members : List (String × Json)) (focus : String) (relations : List Json)
    (position : Nat) (way : List String) (index : String) (near far : Json),
    place = (graph.key "relations").index position ∧
    Part.graph.StandsAt document graph (.object members) ∧ IsGraph (.object members) ∧
    members.lookup "focus" = some (.string focus) ∧
    members.lookup "relations" = some (.array relations) ∧ relations[position]? = some value ∧
    Leads (Linked relations) focus way index ∧ way.length = maxJoinDepth ∧
    Joins value near far ∧ near.firstIndex? = some index ∧
    ∀ other, far.firstIndex? = some other → other ∉ focus :: way

/-- The value at a place is the endpoint at the far side of the last step of a chain. -/
def AtRootSide (place : Pointer) (value : Json) : Prop :=
  Part.endpoint.StandsAt document place value ∧
    ∃ (chain : Pointer) (before : List Json) (last : Json),
      Part.chain.StandsAt document chain (.array (before ++ [last])) ∧
      place = ((chain.index before.length).key "relation").index 1

/-- The place of a field. -/
def Pointer.AtField (field : String) (place : Pointer) : Prop :=
  ∃ object : Pointer, place = object.key field

/-- The value at a place of a document is the part that a malformation speaks about, and has the
flaw that it tells. A host is never missing where it is looked for. -/
def Malformation.Shown (place : Pointer) (value : Json) : Malformation → Prop
  | .endpointNotObject => Part.endpoint.StandsAt document place value ∧ ¬ value.IsObject
  | .notString field =>
    Part.text.StandsAt document place value ∧ place.AtField field ∧
      value ≠ .null ∧ ¬ value.IsText
  | .entryNotString field =>
    Part.text.StandsAt document place value ∧
      (∃ (texts : Pointer) (position : Nat), texts.AtField field ∧ place = texts.index position) ∧
      ¬ value.IsText
  | .notStrings field =>
    Part.texts.StandsAt document place value ∧ place.AtField field ∧
      value ≠ .null ∧ ¬ value.IsText ∧ ¬ value.IsArray
  | .notInteger field =>
    Part.limit.StandsAt document place value ∧ place.AtField field ∧
      value ≠ .null ∧ ¬ value.IsLimit
  | .notBoolean field =>
    Part.flag.StandsAt document place value ∧ place.AtField field ∧
      value ≠ .null ∧ ¬ value.IsFlag
  | .clauseNotObject => Part.clause.StandsAt document place value ∧ ¬ value.IsObject
  | .clausesNotArray =>
    Part.clauses.StandsAt document place value ∧ value ≠ .null ∧ ¬ value.IsArray
  | .edgeNotRelation =>
    Part.edge.StandsAt document place value ∧ ¬ value.IsArray ∧ ¬ value.IsObject
  | .relationNotPair =>
    Part.pair.StandsAt document place value ∧ ∀ first second, value ≠ .array [first, second]
  | .graphNotObject => Part.graph.StandsAt document place value ∧ ¬ value.IsObject
  | .relationsNotArray =>
    Part.relations.StandsAt document place value ∧ value ≠ .null ∧ ¬ value.IsArray
  | .clausesNotKeyed =>
    Part.clausesByIndex.StandsAt document place value ∧ value ≠ .null ∧ ¬ value.IsObject
  | .chainNotArray => Part.chain.StandsAt document place value ∧ ¬ value.IsArray
  | .stepNotObject => Part.step.StandsAt document place value ∧ ¬ value.IsObject
  | .branchesNotArray => Part.branches.StandsAt document place value ∧ ¬ value.IsArray
  | .chainEmpty => Part.chain.StandsAt document place value ∧ value = .array []
  | .groupNotFirst =>
    Part.step.StandsAt document place value ∧ value.IsGroup ∧
      ∃ (chain : Pointer) (position : Nat), place = chain.index position ∧ 0 < position
  | .groupAlone =>
    Part.step.StandsAt document place value ∧ value.IsGroup ∧
      ∃ chain : Pointer, place = chain.index 0 ∧
        Part.chain.StandsAt document chain (.array [value])
  | .groupEmpty =>
    Part.step.StandsAt document place value ∧
      ∃ members, value = .object members ∧ members.lookup "group" = some (.array [])
  | .groupLast =>
    Part.step.StandsAt document place value ∧ value.IsGroup ∧
      ∃ (chain : Pointer) (before : List Json), place = chain.index before.length ∧
        Part.chain.StandsAt document chain (.array (before ++ [value]))
  | .tooDeep => StepTooDeep document place value ∨ RelationTooDeep document place value
  | .hostMissing _ => False

/-- The value at a place of a document is the part that a fault speaks about, and has the flaw that
it tells. -/
def Fault.Shown (place : Pointer) (value : Json) : Fault → Prop
  | .missingField field _ => ∃ (part : Part) (members : List (String × Json)),
    part.StandsAt document place value ∧ field ∈ part.required ∧ value = .object members ∧
    (members.lookup field = none ∨ members.lookup field = some .null ∨
      field = "path" ∧ members.lookup field = some (.string ""))
  | .malformed cause _ => cause.Shown document place value
  | .unknownField field _ => Part.endpoint.StandsAt document place value ∧
    ∃ members, value = .object members ∧ field ∉ Endpoint.fields ∧
      field ∈ members.map Prod.fst ∧
      ∀ other ∈ members.map Prod.fst, other ∉ Endpoint.fields → field ≤ other
  | .rootFilters _ => False
  | .rootQueries _ => AtRootSide document place value ∧ value.IsEndpoint ∧
    ∃ members clause rest, value = .object members ∧
      members.lookup "queries" = some (.array (clause :: rest))
  | .selfRelation index _ => Part.edge.StandsAt document place value ∧
    ∃ first second, IsRelation first second value ∧
      first.firstIndex? = some index ∧ second.firstIndex? = some index
  | .crowdedHost label _ => ∃ members, value = .object members ∧
    label.key ∈ members.map Prod.fst ∧ ∃ other ∈ members.map Prod.fst, other ≠ label.key

/-- If a fault tells a place, there is a value at this place of a document, and it has the flaw that
the fault tells. -/
def Fault.ShownIn (fault : Fault) : Prop :=
  ∀ place, fault.place? = some place →
    ∃ value, place.resolve? document = some value ∧ fault.Shown document place value

end Semijoin
