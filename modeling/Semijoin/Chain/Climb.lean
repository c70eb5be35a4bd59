import Semijoin.Chain.Basic
import Semijoin.Join

/-!
# Climbing a join chain

The joins of a chain are built from the first step upwards: every step makes a join that
takes the joins built before it as restrictions of its target. A group contributes the
joins of all its branches side by side.
-/

namespace Semijoin

/-- The joins built up to some step of a chain, and how deep they nest. -/
structure Tier where
  joins : List (Join × Bool)
  depth : Nat

namespace Hop

/-- Reports clauses on the filtered side (`warn_ignored_queries`). The step that follows carries the
clauses of that index. -/
def reportIgnored (hop : Hop) : Compilation Unit :=
  if hop.filtered.queries.isEmpty then return () else Traced.report (.queriesIgnored hop.origin)

/-- The join of a step, with the clauses of the side it collects from (`step_node`). -/
def join (hop : Hop) (sentinel : String) : Compilation Join := do
  let join ← Join.build sentinel hop.filtered.path hop.joined
  join.attachClauses hop.joined.queries

end Hop

/-- Builds the joins of the steps after the first. -/
def Tier.climb (sentinel : String) (tier : Tier) : List Step → Compilation Tier
  | [] => return tier
  | .group origin _ :: _ => Traced.fail (.malformed .groupNotFirst origin)
  | .relation hop :: rest => do
    if maxJoinDepth ≤ tier.depth then
      Traced.fail (.malformed .tooDeep hop.origin)
    else
      -- The last step has no such clauses: they are refused when a chain is checked.
      if !rest.isEmpty then hop.reportIgnored
      let join ← hop.join sentinel
      let join ← join.attachJoins tier.joins
      Tier.climb sentinel ⟨[(join, hop.negate)], tier.depth + 1⟩ rest

mutual

/-- Builds the joins of a chain (`compile_chain`). -/
def Chain.tier (sentinel : String) : Chain → Compilation Tier
  | ⟨_, []⟩ => return ⟨[], 0⟩
  | ⟨_, first :: rest⟩ => do
    let tier ← first.tier sentinel rest.isEmpty
    tier.climb sentinel rest

/-- Builds the joins of a first step. -/
def Step.tier (sentinel : String) (last : Bool) : Step → Compilation Tier
  | .relation hop => do
    if !last then hop.reportIgnored
    return ⟨[(← hop.join sentinel, hop.negate)], 1⟩
  | .group _ branches => Chain.tiers sentinel branches

/-- Builds the joins of branches, side by side. -/
def Chain.tiers (sentinel : String) : List Chain → Compilation Tier
  | [] => return ⟨[], 0⟩
  | branch :: rest => do
    let first ← branch.tier sentinel
    let others ← Chain.tiers sentinel rest
    return ⟨first.joins ++ others.joins, max first.depth others.depth⟩

end

namespace Chain

/-- Compiles a chain to its outermost joins. -/
def joins (chain : Chain) (sentinel : String) : Compilation (List (Join × Bool)) := do
  Traced.ofExcept chain.check
  let tier ← chain.tier sentinel
  Traced.report
    (.chainCompiled chain.origin chain.steps.length tier.depth tier.joins.length)
  return tier.joins

/-- Compiles a chain to clauses. -/
def compile (chain : Chain) (sentinel : String) : Compilation (List Json) := do
  return Join.clauses (← chain.joins sentinel)

end Chain

end Semijoin
