import Semijoin.Proofs.Branch.Basic
import Semijoin.Proofs.Chain.Limit

/-!
# A branch as a join chain

The chain of a branch is in order and gives the join of the branch. It is refused exactly when
the branch is higher than joins may nest.
-/

namespace Semijoin

namespace Step

/-- A first step that is fit to be the only one is fit to be followed by others. -/
theorem checkFirst_false {step : Step} {alone : Bool} (h : step.checkFirst alone = .ok ()) :
    step.checkFirst false = .ok () := by
  cases step with
  | relation hop => rfl
  | group origin branches =>
    cases alone with
    | false => exact h
    | true => cases h

/-- A relation without clauses for the side it filters is fit to be the last step. -/
theorem checkLast_of_queries {hop : Hop} (h : hop.filtered.queries = []) :
    (Step.relation hop).checkLast = .ok () := by
  simp only [checkLast, h, List.isEmpty_nil, ↓reduceIte]
  rfl

/-- Steps that are fit to follow the first stay so with one more relation. -/
theorem forM_checkLater_append {steps : List Step} {hop : Hop}
    (h : steps.forM checkLater = .ok ()) :
    (steps ++ [Step.relation hop]).forM checkLater = .ok () := by
  induction steps with
  | nil => rfl
  | cons first rest ih =>
    change (first.checkLater >>= fun _ => rest.forM checkLater) = .ok () at h
    change (first.checkLater >>= fun _ => (rest ++ [Step.relation hop]).forM checkLater) = .ok ()
    obtain ⟨_, hfirst, hrest⟩ := bind_eq_ok h
    rw [hfirst]
    exact ih hrest

end Step

namespace Chain

/-- A chain in order stays so with one more relation, if the relation has no clauses for the side
it filters. -/
theorem check_append {origin : Pointer} {steps : List Step} {hop : Hop}
    (h : steps = [] ∨ Chain.check ⟨origin, steps⟩ = .ok ()) (hhop : hop.filtered.queries = []) :
    Chain.check ⟨origin, steps ++ [.relation hop]⟩ = .ok () := by
  have hlast := Step.checkLast_of_queries hhop
  cases steps with
  | nil => exact hlast
  | cons first rest =>
    have hcheck := h.resolve_left (List.cons_ne_nil _ _)
    rw [check] at hcheck
    obtain ⟨_, hfirst, hcheck⟩ := bind_eq_ok hcheck
    obtain ⟨_, hlater, -⟩ := bind_eq_ok hcheck
    have hmore : (rest ++ [Step.relation hop]).forM Step.checkLater = .ok () :=
      Step.forM_checkLater_append hlater
    have hnonempty : (rest ++ [Step.relation hop]).isEmpty = false := by simp
    rw [List.cons_append, check, hnonempty, Step.checkFirst_false hfirst, hmore,
      List.getLastD_eq_getLast?, List.getLast?_concat]
    exact hlast

/-- The branches of a group are in order. -/
theorem check_group {origin origin' : Pointer} {branches : List Chain} {hop : Hop}
    (hne : branches ≠ []) (h : checkAll branches = .ok ()) (hhop : hop.filtered.queries = []) :
    Chain.check ⟨origin, [.group origin' branches, .relation hop]⟩ = .ok () := by
  have hlast := Step.checkLast_of_queries hhop
  have hempty : branches.isEmpty = false := by simpa using hne
  simp only [check, Step.checkFirst, List.isEmpty_cons, Bool.false_eq_true, ↓reduceIte, hempty, h]
  exact hlast

end Chain

namespace Branch

mutual

/-- The chain of a branch is in order. -/
theorem check_steps (place : Pointer) : (branch : Branch) →
    Chain.check ⟨place, branch.steps⟩ = .ok ()
  | mk _ _ _ _ _ _ [] => rfl
  | mk _ _ _ _ _ _ [only] =>
    Chain.check_append (.inr (check_steps place only)) rfl
  | mk _ _ _ _ _ _ (first :: second :: rest) =>
    Chain.check_group (List.cons_ne_nil _ _) (checkAll_chains (first :: second :: rest)) rfl

/-- The chains of branches are in order. -/
theorem checkAll_chains : (branches : List Branch) → Chain.checkAll (chains branches) = .ok ()
  | [] => rfl
  | first :: rest => by
    rw [chains, Chain.checkAll, check_steps first.origin first]
    exact checkAll_chains rest

end

/-- Chains that stand before a relation nest as they do side by side. -/
theorem levelsAll_stepsBefore (origin : Pointer) (chains : List Chain) :
    Step.levelsAll 0 (stepsBefore origin chains) = Chain.maxLevels chains := by
  match chains with
  | [] => rfl
  | [⟨_, steps⟩] => exact (Nat.max_zero (Step.levelsAll 0 steps)).symm
  | first :: second :: rest => exact Nat.zero_max _

mutual

/-- The chain of a branch has as many levels as the branch is high. -/
theorem levels_steps (place : Pointer) : (branch : Branch) →
    Chain.levels ⟨place, branch.steps⟩ = branch.height
  | mk _ _ _ _ origin _ branches => by
    rw [steps, Chain.levels, Step.levelsAll_concat, levelsAll_stepsBefore,
      maxLevels_chains branches]
    rfl

/-- The chains of branches have as many levels as the highest of the branches. -/
theorem maxLevels_chains : (branches : List Branch) →
    Chain.maxLevels (chains branches) = maxHeight branches
  | [] => rfl
  | first :: rest => by
    rw [chains, Chain.maxLevels, levels_steps first.origin first, maxLevels_chains rest, maxHeight]

end

variable (sentinel : String)

/-- Chains that stand before a relation have the joins that they have side by side. -/
theorem pileAll_stepsBefore (origin : Pointer) (chains : List Chain) :
    Step.pileAll sentinel [] (stepsBefore origin chains) = Chain.pileAll sentinel chains := by
  match chains with
  | [] => rfl
  | [⟨_, steps⟩] => exact (List.append_nil (Step.pileAll sentinel [] steps)).symm
  | first :: second :: rest => rfl

mutual

/-- The chain of a branch has the join of the branch. -/
theorem pile_steps (place : Pointer) : (branch : Branch) →
    Chain.pile sentinel ⟨place, branch.steps⟩ = [branch.join sentinel]
  | mk _ _ _ _ origin _ branches => by
    rw [steps, Chain.pile, Step.pileAll_concat, pileAll_stepsBefore, pileAll_chains branches]
    rfl

/-- The chains of branches have the joins of the branches. -/
theorem pileAll_chains : (branches : List Branch) →
    Chain.pileAll sentinel (chains branches) = joins sentinel branches
  | [] => rfl
  | first :: rest => by
    rw [chains, Chain.pileAll, pile_steps first.origin first, pileAll_chains rest, joins]
    rfl

end

/-- **A branch as a chain.** The chain of a branch compiles to the clause of its join, or is
refused as too deep when the branch is higher than joins may nest. -/
theorem limited_compile (branch : Branch) :
    Limited maxJoinDepth branch.height (Join.clauses [branch.join sentinel])
      (branch.chain.compile sentinel).result := by
  rw [← levels_steps branch.origin branch, ← pile_steps sentinel branch.origin branch]
  exact branch.chain.limited_compile sentinel (check_steps branch.origin branch)

end Branch

end Semijoin
