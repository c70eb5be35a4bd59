import Semijoin.Proofs.Chain.Limit

/-!
# When a chain is refused

A chain compiles exactly when its steps are in order and its joins nest within the limit. If its
steps are not in order, it is refused as its check tells. If its joins nest too deep, it is refused
at the first of them, in the order in which they are built, that is above the limit.
-/

namespace Semijoin

open FaultsAre

namespace Step

/-- A relation adds a level to those below it. -/
theorem levelsAll_relations (below : Nat) (hops : List Hop) :
    levelsAll below (hops.map .relation) = below + hops.length := by
  induction hops generalizing below with
  | nil => rfl
  | cons hop rest ih =>
    rw [List.map_cons, levelsAll, ih, levels, List.length_cons]
    omega

/-- If the steps before the last one are in order, and no group stands alone, the last one is a
relation. -/
theorem exists_hop_of_checks {first : Step} {rest : List Step}
    (hfirst : first.checkFirst rest.isEmpty = .ok ()) (hlater : rest.forM checkLater = .ok ()) :
    ∃ hop, rest.getLastD first = .relation hop := by
  obtain ⟨hops, rfl⟩ := exists_hops_of_checkLater hlater
  cases hops with
  | nil =>
    cases first with
    | relation hop => exact ⟨hop, rfl⟩
    | group origin branches => cases hfirst
  | cons hop others => exact ⟨_, getLastD_relations (List.cons_ne_nil hop others) first⟩

/-- A fault is told of something else than a group at the end. -/
def NotGroupLast (fault : Fault) : Prop := ∀ place, fault ≠ .malformed .groupLast place

/-- A step that may not follow others is no fault at the end. -/
theorem notGroupLast_checkLater (step : Step) : FaultsAre NotGroupLast step.checkLater := by
  cases step with
  | relation hop => exact pure ()
  | group origin branches => exact throw nofun

/-- A last relation is no group. -/
theorem notGroupLast_checkLast (hop : Hop) :
    FaultsAre NotGroupLast (checkLast (.relation hop)) := by
  rw [checkLast]
  split
  · exact pure ()
  · refine throw fun place heq => ?_
    cases heq

end Step

mutual

/-- The check of a chain never comes to a group at the end. A group there is refused before, as
one that stands alone or is not first. -/
theorem Chain.notGroupLast_check : (chain : Chain) → FaultsAre Step.NotGroupLast chain.check
  | ⟨_, []⟩ => throw nofun
  | ⟨_, first :: rest⟩ => by
    rw [Chain.check]
    refine bind (Step.notGroupLast_checkFirst rest.isEmpty first) fun _ hfirst => ?_
    refine bind (forM fun step _ => step.notGroupLast_checkLater) fun _ hlater => ?_
    obtain ⟨hop, hlast⟩ := Step.exists_hop_of_checks hfirst hlater
    rw [hlast]
    exact Step.notGroupLast_checkLast hop

/-- The check of a first step is not about the end, and neither are those of its branches. -/
theorem Step.notGroupLast_checkFirst (alone : Bool) : (step : Step) →
    FaultsAre Step.NotGroupLast (step.checkFirst alone)
  | .relation _ => pure ()
  | .group _ branches => by
    rw [Step.checkFirst]
    split
    · exact throw nofun
    · split
      · exact throw nofun
      · exact Chain.notGroupLast_checkAll branches

/-- The checks of branches never come to a group at the end. -/
theorem Chain.notGroupLast_checkAll : (branches : List Chain) →
    FaultsAre Step.NotGroupLast (Chain.checkAll branches)
  | [] => pure ()
  | branch :: rest =>
    bind (Chain.notGroupLast_check branch) fun _ _ => Chain.notGroupLast_checkAll rest

end

namespace Chain

variable {chain : Chain}

/-- A chain in order has a first step and only relations behind it. -/
theorem InOrder.exists_steps (h : chain.InOrder) :
    ∃ first hops, chain.steps = first :: List.map Step.relation hops := by
  cases h with
  | @relations origin hops hne hlast =>
    obtain ⟨hop, rest, rfl⟩ := List.exists_cons_of_ne_nil hne
    exact ⟨.relation hop, rest, rfl⟩
  | grouped => exact ⟨_, _, rfl⟩

/-- The levels of a chain in order are those of its first step and one for each step behind it. -/
theorem InOrder.levels_eq (h : chain.InOrder) :
    ∃ first rest, chain.steps = first :: rest ∧ chain.levels = first.levels 0 + rest.length := by
  obtain ⟨first, hops, hsteps⟩ := h.exists_steps
  obtain ⟨origin, steps⟩ := chain
  change steps = _ at hsteps
  subst hsteps
  refine ⟨first, _, rfl, ?_⟩
  rw [levels, Step.levelsAll, Step.levelsAll_relations, List.length_map]

/-- A chain in order gives the join of its last step, unless a rung is above the limit. -/
theorem InOrder.result_joins_eq_reach (h : chain.InOrder) (sentinel : String) :
    (chain.joins sentinel).result =
      Rung.reach maxJoinDepth chain.rungs [chain.joinAt sentinel chain.last] := by
  rw [result_joins, h.check, chain.result_tier_eq_reach sentinel h.check, h.pile_eq]
  exact Rung.reach_map _ _ Tier.joins

/-- A chain in order compiles to the clause of its last step, unless a rung is above the limit. -/
theorem InOrder.result_compile_eq_reach (h : chain.InOrder) (sentinel : String) :
    (chain.compile sentinel).result =
      Rung.reach maxJoinDepth chain.rungs (Join.clauses [chain.joinAt sentinel chain.last]) := by
  rw [compile, Traced.result_bind, h.result_joins_eq_reach]
  exact Rung.reach_map _ _ Join.clauses

/-- A chain that is not in order is refused as its check tells. -/
theorem result_compile_of_check_eq_error {fault : Fault} (h : chain.check = .error fault)
    (sentinel : String) : (chain.compile sentinel).result = .error fault := by
  rw [compile, Traced.result_bind, result_joins, h]
  rfl

/-- A chain that compiles is in order. -/
theorem inOrder_of_compile {sentinel : String} {clauses : List Json}
    (h : (chain.compile sentinel).result = .ok clauses) : chain.InOrder := by
  cases hcheck : chain.check with
  | ok _ => exact check_eq_ok_iff.mp hcheck
  | error fault =>
    rw [result_compile_of_check_eq_error hcheck] at h
    cases h

/-- What comes of compiling a chain. -/
structure Verdict (chain : Chain) (result : Except Fault (List Json)) : Prop where
  /-- A chain compiles exactly when its steps are in order and its joins nest within the limit. -/
  succeeds_iff : (∃ clauses, result = .ok clauses) ↔
    chain.InOrder ∧ chain.levels ≤ maxJoinDepth
  /-- The levels of a chain in order are those of its first step, of which a relation has one and a
  group as many as the deepest of its branches, and one more for each step behind it. -/
  levels_eq : chain.InOrder → ∃ first rest, chain.steps = first :: rest ∧
    chain.levels = first.levels 0 + rest.length
  /-- A chain that compiles gives a single clause. -/
  single : ∀ clauses, result = .ok clauses → ∃ clause, clauses = [clause]
  /-- A chain that is not in order is refused with the fault that its check finds. -/
  disorder : ¬ chain.InOrder → ∃ fault, chain.check = .error fault ∧ result = .error fault
  /-- A chain in order that nests too deep is refused at the first rung above the limit, in the
  order in which the joins are built. -/
  tooDeep : chain.InOrder → maxJoinDepth < chain.levels → ∃ rung,
    chain.rungs.find? (fun rung => maxJoinDepth < rung.level) = some rung ∧
    result = .error (.malformed .tooDeep rung.origin)
  /-- Once the check has succeeded and joins are built, neither the chain nor any of its branches is
  empty or has a group behind its first step. -/
  branch_steps : chain.check = .ok () → ∀ numbers branch, chain.at? numbers = some branch →
    ∃ first hops, branch.steps = first :: List.map Step.relation hops
  /-- The check never comes to refuse a group as the last step. -/
  notGroupLast : ∀ place, chain.check ≠ .error (.malformed .groupLast place)

/-- **When a chain is refused.** A chain compiles, to a single clause, exactly when its steps are in
order and its joins nest within the limit. Otherwise it is refused as its check tells, or at the
first join that nests too deep. -/
theorem verdict_compile (chain : Chain) (sentinel : String) :
    chain.Verdict (chain.compile sentinel).result where
  succeeds_iff := by
    constructor
    · rintro ⟨clauses, hclauses⟩
      have h := inOrder_of_compile hclauses
      rw [h.result_compile_eq_reach] at hclauses
      exact ⟨h, chain.forall_rungs_le_iff.mp (Rung.forall_le_of_reach_eq_ok hclauses)⟩
    · rintro ⟨h, hlevels⟩
      rw [h.result_compile_eq_reach]
      exact ⟨_, Rung.reach_of_forall_le (chain.forall_rungs_le_iff.mpr hlevels) _⟩
  levels_eq := InOrder.levels_eq
  single clauses hclauses := by
    rw [(inOrder_of_compile hclauses).result_compile_eq_reach] at hclauses
    rw [Rung.reach_of_forall_le (Rung.forall_le_of_reach_eq_ok hclauses)] at hclauses
    cases hclauses
    exact ⟨_, rfl⟩
  disorder h := by
    cases hcheck : chain.check with
    | ok _ => exact absurd (check_eq_ok_iff.mp hcheck) h
    | error fault => exact ⟨fault, rfl, result_compile_of_check_eq_error hcheck sentinel⟩
  tooDeep h hdeep := by
    have habove := mt chain.forall_rungs_le_iff.mp (Nat.not_le_of_lt hdeep)
    rw [h.result_compile_eq_reach]
    exact Rung.exists_reach_eq_error habove _
  branch_steps h numbers branch hbranch := ((check_eq_ok_iff.mp h).of_at? hbranch).exists_steps
  notGroupLast place h := chain.notGroupLast_check _ h place rfl

/-- A chain behind a group whose second branch nests as deep as joins may. -/
def overtopped : Chain :=
  ⟨.root, [
    .group (Pointer.root.index 0) [
      ⟨.root, [stepTo "to_a" "a" false]⟩,
      ⟨.root, List.replicate maxJoinDepth (stepTo "to_b" "b" false)⟩],
    .relation ⟨.ofIndex "b" "id", .ofIndex "c" "to_b", false, Pointer.root.index 1⟩]⟩

/-- The step behind the group is one level too high. -/
theorem verdict_compile_overtopped : overtopped.InOrder ∧ overtopped.levels = maxJoinDepth + 1 ∧
    (overtopped.compile ".filterjoin").result =
      .error (.malformed .tooDeep (Pointer.root.index 1)) := by
  have horder : overtopped.InOrder := inOrder_of_check overtopped rfl
  have hlevels : overtopped.levels = maxJoinDepth + 1 := by decide +kernel
  obtain ⟨rung, hrung, hresult⟩ :=
    (verdict_compile overtopped ".filterjoin").tooDeep horder (by rw [hlevels]; decide)
  have hfound : overtopped.rungs.find? (fun rung => maxJoinDepth < rung.level) =
      some ⟨Pointer.root.index 1, maxJoinDepth + 1⟩ := by decide +kernel
  cases hrung.symm.trans hfound
  exact ⟨horder, hlevels, hresult⟩

end Chain

end Semijoin
