import Semijoin.Proofs.Chain.Limit
import Semijoin.Proofs.Graph.Limit

/-!
# Specifications without the limit

The joins of a specification can be told however deep they nest. A specification compiles to these
joins if they nest within the limit, and is refused if they do not. What its clauses bring along
does not count.
-/

namespace Semijoin

open Json

section Nesting

variable (sentinel : String)

/-- A step puts its join at most one level over the joins below. -/
theorem Hop.depth_joinOver_le (hop : Hop) (below : List (Join × Bool)) :
    (hop.joinOver sentinel below).1.depth ≤ Join.maxDepth below + 1 := by
  rw [joinOver, ownJoin]
  by_cases hindices : hop.joined.indices = []
  · rw [Join.depth_attaching_of_indices_eq_nil hindices]
    exact Nat.succ_le_succ (Nat.zero_le _)
  · rw [Join.depth_attaching hindices]

mutual

/-- The joins of a chain are no deeper than its levels tell. -/
theorem Chain.maxDepth_pile_le : (chain : Chain) →
    Join.maxDepth (chain.pile sentinel) ≤ chain.levels
  | ⟨_, steps⟩ => Step.maxDepth_pileAll_le (Nat.le_refl (Join.maxDepth [])) steps

/-- The joins of some steps are no deeper than their levels tell. -/
theorem Step.maxDepth_pileAll_le {below : List (Join × Bool)} {levels : Nat}
    (h : Join.maxDepth below ≤ levels) : (steps : List Step) →
    Join.maxDepth (Step.pileAll sentinel below steps) ≤ Step.levelsAll levels steps
  | [] => h
  | step :: rest => Step.maxDepth_pileAll_le (Step.maxDepth_pile_le h step) rest

/-- The joins of a step are no deeper than its levels tell. -/
theorem Step.maxDepth_pile_le {below : List (Join × Bool)} {levels : Nat}
    (h : Join.maxDepth below ≤ levels) : (step : Step) →
    Join.maxDepth (step.pile sentinel below) ≤ step.levels levels
  | .relation hop => by
    rw [Step.pile, Step.levels, Join.maxDepth_singleton]
    exact Nat.le_trans (hop.depth_joinOver_le sentinel below) (Nat.succ_le_succ h)
  | .group _ branches => by
    have hbranches := Chain.maxDepth_pileAll_le branches
    rw [Step.pile, Step.levels, Join.maxDepth_append]
    omega

/-- The joins of branches are no deeper than the levels of the deepest of them tell. -/
theorem Chain.maxDepth_pileAll_le : (branches : List Chain) →
    Join.maxDepth (Chain.pileAll sentinel branches) ≤ Chain.maxLevels branches
  | [] => Nat.le_refl 0
  | branch :: rest => by
    have hbranch := Chain.maxDepth_pile_le branch
    have hrest := Chain.maxDepth_pileAll_le rest
    rw [Chain.pileAll, Chain.maxLevels, Join.maxDepth_append]
    omega

end

end Nesting

namespace Specification

/-- The joins of a specification, however deep they nest, and how deep that is. -/
def unlimited (sentinel : String) : Specification → Except Fault Tier
  | .graph g => do
    g.checkFocus
    let walked ← g.fullWalk sentinel
    return ⟨walked.joins, Join.maxDepth walked.joins⟩
  | .chain c => return ⟨c.pile sentinel, c.levels⟩

variable {sentinel : String} {specification : Specification} {tier : Tier}

/-- The joins of a specification are no deeper than it is told. -/
theorem maxDepth_le_of_unlimited (h : specification.unlimited sentinel = .ok tier) :
    Join.maxDepth tier.joins ≤ tier.depth := by
  cases specification with
  | graph graph =>
    obtain ⟨_, -, h⟩ := bind_eq_ok h
    obtain ⟨walked, -, h⟩ := bind_eq_ok h
    cases h
    exact Nat.le_refl _
  | chain chain =>
    cases h
    exact chain.maxDepth_pile_le sentinel

/-- The joins of a specification carry its clauses, however deep they nest. -/
theorem Carries.unlimited {body : Json → Prop} (hcarries : specification.Carries body)
    (h : specification.unlimited sentinel = .ok tier) :
    ∀ join ∈ tier.joins, join.1.Carries body := by
  cases specification with
  | graph g =>
    obtain ⟨_, -, h⟩ := bind_eq_ok h
    obtain ⟨walked, hwalked, h⟩ := bind_eq_ok h
    cases h
    exact Graph.Carries.walkFrom hcarries hwalked
  | chain c =>
    cases h
    exact c.carries_pile hcarries

/-- The joins of a specification that has passed its check are built unless they nest too deep. -/
theorem limited_joins (hcheck : specification.check = .ok ())
    (h : specification.unlimited sentinel = .ok tier) :
    Limited maxJoinDepth tier.depth tier.joins (specification.joins sentinel).result := by
  cases specification with
  | graph g =>
    change g.check = .ok () at hcheck
    obtain ⟨_, hfocus, h⟩ := bind_eq_ok h
    obtain ⟨walked, hwalked, h⟩ := bind_eq_ok h
    cases h
    change Limited _ _ _ (g.joins sentinel).result
    rw [Graph.result_joins, hcheck, hfocus]
    exact (g.limits_walkFrom sentinel _ maxJoinDepth _ _ _ hwalked).map Walked.joins
  | chain c =>
    change c.check = .ok () at hcheck
    cases h
    exact c.limited_joins sentinel hcheck

/-- **The limit of a specification.** A specification that has passed its check compiles to its
joins if they nest within the limit, and is refused as too deep if they do not. -/
theorem limited_compile (hcheck : specification.check = .ok ())
    (h : specification.unlimited sentinel = .ok tier) :
    Limited maxJoinDepth tier.depth (Join.clauses tier.joins)
      (specification.compile sentinel).result := by
  rw [result_compile]
  exact (limited_joins hcheck h).map Join.clauses

/-- A specification that has no joins even without the limit is refused. -/
theorem compile_eq_error (hcheck : specification.check = .ok ()) {fault : Fault}
    (h : specification.unlimited sentinel = .error fault) :
    (specification.compile sentinel).result = .error fault := by
  cases specification with
  | graph g =>
    change g.check = .ok () at hcheck
    change (g.compile sentinel).result = _
    rw [Graph.result_compile, hcheck]
    rcases bind_eq_error h with hfocus | ⟨_, -, h⟩
    · rw [hfocus]
      rfl
    · obtain ⟨walked, hwalked⟩ := g.exists_fullWalk sentinel
      rw [hwalked] at h
      cases h
  | chain c => cases h

end Specification

end Semijoin
