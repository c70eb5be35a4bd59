import Semijoin.Chain.Basic
import Semijoin.Outcome

/-!
# Chains in order

A chain in order has a group at most in front of its relations, and its last relation has no clauses
for the documents being searched. These are the chains that pass their check.
-/

namespace Semijoin

namespace Step

/-- Relations may follow a first step. -/
theorem forM_checkLater_relations (hops : List Hop) :
    (hops.map Step.relation).forM checkLater = .ok () := by
  induction hops with
  | nil => rfl
  | cons hop rest ih => exact ih

/-- Steps that may follow a first one are relations. -/
theorem exists_hops_of_checkLater {steps : List Step} (h : steps.forM checkLater = .ok ()) :
    ∃ hops : List Hop, steps = hops.map .relation := by
  induction steps with
  | nil => exact ⟨[], rfl⟩
  | cons step rest ih =>
    cases step with
    | relation hop =>
      obtain ⟨hops, rfl⟩ := ih h
      exact ⟨hop :: hops, rfl⟩
    | group origin branches => cases h

/-- A last relation may have no clauses for the documents being searched. -/
theorem checkLast_relation {hop : Hop} :
    checkLast (.relation hop) = .ok () ↔ hop.filtered.queries = [] := by
  rw [checkLast]
  cases hop.filtered.queries with
  | nil => exact iff_of_true rfl rfl
  | cons clause rest => exact iff_of_false nofun nofun

/-- The last of some relations behind a first step is the last of them all. -/
theorem getLastD_relations {hops : List Hop} (hne : hops ≠ []) (first : Step) :
    (hops.map Step.relation).getLastD first = .relation (hops.getLast hne) := by
  rw [List.getLastD_eq_getLast?, List.getLast?_map, List.getLast?_eq_some_getLast hne]
  rfl

end Step

/-- The steps of a chain are relations, behind a group of branches of the same kind if there is
one, and the last of them has no clauses for the documents being searched. -/
inductive Chain.InOrder : Chain → Prop
  | relations {origin : Pointer} {hops : List Hop} (hne : hops ≠ [])
    (hlast : (hops.getLast hne).filtered.queries = []) :
    InOrder ⟨origin, hops.map .relation⟩
  | grouped {origin group : Pointer} {branches : List Chain} {hops : List Hop} (hne : hops ≠ [])
    (hlast : (hops.getLast hne).filtered.queries = [])
    (hbranches : branches ≠ []) (hall : ∀ branch ∈ branches, InOrder branch) :
    InOrder ⟨origin, .group group branches :: hops.map .relation⟩

mutual

/-- The steps of a chain that passes its check are in order. -/
theorem Chain.inOrder_of_check : (chain : Chain) → chain.check = .ok () → chain.InOrder
  | ⟨_, []⟩, h => by cases h
  | ⟨_, .relation hop :: rest⟩, h => by
    rw [Chain.check] at h
    obtain ⟨_, -, h⟩ := bind_eq_ok h
    obtain ⟨_, hlater, hlast⟩ := bind_eq_ok h
    obtain ⟨hops, rfl⟩ := Step.exists_hops_of_checkLater hlater
    refine .relations (List.cons_ne_nil hop hops) (Step.checkLast_relation.mp ?_)
    rw [← hlast]
    cases hops with
    | nil => rfl
    | cons next others =>
      rw [Step.getLastD_relations (List.cons_ne_nil _ _), List.getLast_cons]
  | ⟨_, .group _ branches :: rest⟩, h => by
    rw [Chain.check] at h
    obtain ⟨_, hfirst, h⟩ := bind_eq_ok h
    obtain ⟨_, hlater, hlast⟩ := bind_eq_ok h
    obtain ⟨hops, rfl⟩ := Step.exists_hops_of_checkLater hlater
    rw [Step.checkFirst] at hfirst
    split at hfirst
    · cases hfirst
    · rename_i halone
      split at hfirst
      · cases hfirst
      · rename_i hempty
        have hne : hops ≠ [] := by
          rintro rfl
          exact halone rfl
        rw [Step.getLastD_relations hne] at hlast
        refine .grouped hne (Step.checkLast_relation.mp hlast) ?_
          (Chain.allInOrder_of_checkAll branches hfirst)
        rintro rfl
        exact hempty rfl

/-- Branches that are checked together are all in order. -/
theorem Chain.allInOrder_of_checkAll : (branches : List Chain) → Chain.checkAll branches = .ok () →
    ∀ branch ∈ branches, branch.InOrder
  | [], _, _, hbranch => by cases hbranch
  | first :: rest, h, branch, hbranch => by
    rw [Chain.checkAll] at h
    obtain ⟨_, hfirst, hrest⟩ := bind_eq_ok h
    rcases List.mem_cons.mp hbranch with hbranch | hbranch
    · rw [hbranch]
      exact Chain.inOrder_of_check first hfirst
    · exact Chain.allInOrder_of_checkAll rest hrest branch hbranch

end

namespace Chain

/-- Branches pass their check together if each of them passes its own. -/
theorem checkAll_eq_ok {branches : List Chain} (h : ∀ branch ∈ branches, branch.check = .ok ()) :
    checkAll branches = .ok () := by
  induction branches with
  | nil => rfl
  | cons branch rest ih =>
    obtain ⟨hbranch, hrest⟩ := List.forall_mem_cons.mp h
    rw [checkAll, hbranch]
    exact ih hrest

/-- A chain in order passes its check. -/
theorem InOrder.check {chain : Chain} (h : chain.InOrder) : chain.check = .ok () := by
  induction h with
  | @relations origin hops hne hlast =>
    obtain ⟨first, rest, rfl⟩ := List.exists_cons_of_ne_nil hne
    have hrest : ((rest.map Step.relation).getLastD (.relation first)).checkLast = .ok () := by
      cases rest with
      | nil => exact Step.checkLast_relation.mpr hlast
      | cons next others =>
        rw [Step.getLastD_relations (List.cons_ne_nil _ _), Step.checkLast_relation]
        rwa [List.getLast_cons (List.cons_ne_nil _ _)] at hlast
    rw [List.map_cons, Chain.check, Step.checkFirst, Step.forM_checkLater_relations, hrest]
    rfl
  | @grouped origin group branches hops hne hlast hbranches hall ih =>
    have halone : (hops.map Step.relation).isEmpty = false := by simp [hne]
    have hempty : branches.isEmpty = false := by simp [hbranches]
    rw [Chain.check, Step.checkFirst, halone, hempty, checkAll_eq_ok ih,
      Step.forM_checkLater_relations, Step.getLastD_relations hne,
      Step.checkLast_relation.mpr hlast]
    rfl

/-- A chain passes its check exactly when its steps are in order. -/
theorem check_eq_ok_iff {chain : Chain} : chain.check = .ok () ↔ chain.InOrder :=
  ⟨inOrder_of_check chain, InOrder.check⟩

end Chain

end Semijoin
