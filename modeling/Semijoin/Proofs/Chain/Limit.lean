import Semijoin.Proofs.Chain.Nesting
import Semijoin.Proofs.Join.Rungs

/-!
# How deep a chain may nest

The joins of a chain and the levels that they nest can be told however many these are. A chain in
order compiles to its joins if they nest within the limit, and is refused if they do not.
-/

namespace Semijoin

/-- A computation that nests joins gives its value if they nest no deeper than the limit, and is
refused if they do. -/
structure Limited {α : Type} (limit depth : Nat) (value : α) (result : Except Fault α) : Prop where
  within : depth ≤ limit → result = .ok value
  beyond : limit < depth → ∃ origin, result = .error (.malformed .tooDeep origin)

namespace Limited

variable {α β : Type} {limit depth depth' : Nat} {value : α} {value' : β}
  {result : Except Fault α}

/-- What nests no joins is never refused. -/
theorem ok (limit : Nat) (value : α) : Limited limit 0 value (.ok value) where
  within _ := rfl
  beyond h := absurd h (Nat.not_lt_zero limit)

/-- Of two computations the deeper one decides. -/
theorem bind (h : Limited limit depth value result) (next : α → Except Fault β)
    (hnext : Limited limit depth' value' (next value)) :
    Limited limit (max depth depth') value' (result >>= next) where
  within hle := by
    rw [h.within (by omega)]
    exact hnext.within (by omega)
  beyond hlt := by
    by_cases hdepth : depth ≤ limit
    · rw [h.within hdepth]
      exact hnext.beyond (by omega)
    · obtain ⟨origin, herror⟩ := h.beyond (by omega)
      exact ⟨origin, by rw [herror]; rfl⟩

/-- What is made of the value is refused when the value is. -/
theorem map (h : Limited limit depth value result) (f : α → β) :
    Limited limit depth (f value) (result >>= fun value => .ok (f value)) := by
  have hbind := h.bind (fun value => .ok (f value)) (ok limit (f value))
  rwa [Nat.max_zero] at hbind

/-- Depth may be counted from one level further out. -/
theorem succ (h : Limited limit depth value result) :
    Limited (limit + 1) (depth + 1) value result where
  within hle := h.within (by omega)
  beyond hlt := h.beyond (by omega)

end Limited

mutual

/-- How deep the joins of a chain nest. -/
def Chain.levels : Chain → Nat
  | ⟨_, steps⟩ => Step.levelsAll 0 steps

/-- How deep the joins of some steps nest, together with those below them. -/
def Step.levelsAll (below : Nat) : List Step → Nat
  | [] => below
  | step :: rest => Step.levelsAll (step.levels below) rest

/-- How deep the joins of a step nest, together with those below it. A group has as many levels as
the deepest of its branches. -/
def Step.levels (below : Nat) : Step → Nat
  | .relation _ => below + 1
  | .group _ branches => max below (Chain.maxLevels branches)

/-- The levels of the deepest of some chains. -/
def Chain.maxLevels : List Chain → Nat
  | [] => 0
  | branch :: rest => max branch.levels (Chain.maxLevels rest)

end

/-- The step behind some others counts from their levels on. -/
theorem Step.levelsAll_concat (below : Nat) (steps : List Step) (step : Step) :
    Step.levelsAll below (steps ++ [step]) = step.levels (Step.levelsAll below steps) := by
  induction steps generalizing below with
  | nil => rfl
  | cons first rest ih => exact ih _

mutual

/-- The rungs of the joins of a chain, in the order in which these are built. -/
def Chain.rungs : Chain → List Rung
  | ⟨_, steps⟩ => Step.allRungs 0 steps

/-- The rungs of the joins of some steps, over the levels below. -/
def Step.allRungs (below : Nat) : List Step → List Rung
  | [] => []
  | step :: rest => step.rungs below ++ Step.allRungs (step.levels below) rest

/-- The rungs of the joins of a step, over the levels below. In a group they are those of its
branches, one branch after the other. -/
def Step.rungs (below : Nat) : Step → List Rung
  | .relation hop => [⟨hop.origin, below + 1⟩]
  | .group _ branches => Chain.allRungs branches

/-- The rungs of the joins of branches, one after the other. -/
def Chain.allRungs : List Chain → List Rung
  | [] => []
  | branch :: rest => branch.rungs ++ Chain.allRungs rest

end

section Height

variable {limit : Nat}

mutual

/-- A chain has as many levels as its highest rung tells. -/
theorem Chain.forall_rungs_le_iff : (chain : Chain) →
    ((∀ rung ∈ chain.rungs, rung.level ≤ limit) ↔ chain.levels ≤ limit)
  | ⟨_, steps⟩ => by
    have hsteps := Step.forall_allRungs_le_iff 0 steps
    rwa [and_iff_right (Nat.zero_le limit)] at hsteps

/-- Some steps have as many levels as the highest of their rungs and of those below tells. -/
theorem Step.forall_allRungs_le_iff (below : Nat) : (steps : List Step) →
    ((below ≤ limit ∧ ∀ rung ∈ Step.allRungs below steps, rung.level ≤ limit) ↔
      Step.levelsAll below steps ≤ limit)
  | [] => and_iff_left (List.forall_mem_nil _)
  | step :: rest => by
    rw [Step.allRungs, List.forall_mem_append, ← and_assoc,
      Step.forall_rungs_le_iff below step]
    exact Step.forall_allRungs_le_iff (step.levels below) rest

/-- A step has as many levels as the highest of its rungs and of those below tells. -/
theorem Step.forall_rungs_le_iff (below : Nat) : (step : Step) →
    ((below ≤ limit ∧ ∀ rung ∈ step.rungs below, rung.level ≤ limit) ↔
      step.levels below ≤ limit)
  | .relation hop => by
    rw [Step.rungs, List.forall_mem_singleton, Step.levels]
    exact and_iff_right_of_imp Nat.le_of_succ_le
  | .group origin branches => by
    rw [Step.rungs, Chain.forall_allRungs_le_iff branches, Step.levels, Nat.max_le]

/-- Branches have as many levels as their highest rung tells. -/
theorem Chain.forall_allRungs_le_iff : (branches : List Chain) →
    ((∀ rung ∈ Chain.allRungs branches, rung.level ≤ limit) ↔
      Chain.maxLevels branches ≤ limit)
  | [] => iff_of_true (List.forall_mem_nil _) (Nat.zero_le limit)
  | branch :: rest => by
    rw [Chain.allRungs, List.forall_mem_append, Chain.forall_rungs_le_iff branch,
      Chain.forall_allRungs_le_iff rest, Chain.maxLevels, Nat.max_le]

end

end Height

/-- What is reached over rungs nests as many joins as the highest of them tells. -/
theorem Rung.limited_reach {α : Type} {limit depth : Nat} {rungs : List Rung}
    (h : (∀ rung ∈ rungs, rung.level ≤ limit) ↔ depth ≤ limit) (value : α) :
    Limited limit depth value (reach limit rungs value) where
  within hle := reach_of_forall_le (h.mpr hle) value
  beyond hlt := by
    obtain ⟨rung, -, herror⟩ := exists_reach_eq_error (mt h.mp (Nat.not_le_of_lt hlt)) value
    exact ⟨rung.origin, herror⟩

variable (sentinel : String)

/-- Relations put their joins over those of a tier, rung by rung. -/
theorem Tier.result_climb_eq_reach (tier : Tier) {steps : List Step}
    (hsteps : steps.forM Step.checkLater = .ok ()) :
    (tier.climb sentinel steps).result =
      Rung.reach maxJoinDepth (Step.allRungs tier.depth steps)
        ⟨Step.pileAll sentinel tier.joins steps, Step.levelsAll tier.depth steps⟩ := by
  induction steps generalizing tier with
  | nil => rfl
  | cons step rest ih =>
    cases step with
    | group origin branches => cases hsteps
    | relation hop =>
      rw [result_climb_relation, Step.allRungs, Step.rungs, List.singleton_append]
      split
      · rename_i hdepth
        rw [Rung.reach_cons_of_lt (Nat.lt_succ_of_le hdepth)]
      · rename_i hdepth
        rw [Rung.reach_cons_of_le (Nat.lt_of_not_le hdepth)]
        exact ih ⟨_, _⟩ hsteps

mutual

/-- The joins of a chain in order are piled up rung by rung. -/
theorem Chain.result_tier_eq_reach : (chain : Chain) → chain.check = .ok () →
    (chain.tier sentinel).result =
      Rung.reach maxJoinDepth chain.rungs ⟨chain.pile sentinel, chain.levels⟩
  | ⟨_, []⟩, h => by cases h
  | ⟨_, first :: rest⟩, h => by
    rw [Chain.check] at h
    obtain ⟨_, hfirst, h⟩ := bind_eq_ok h
    obtain ⟨_, hlater, -⟩ := bind_eq_ok h
    rw [Chain.result_tier_cons, Step.result_tier_eq_reach rest.isEmpty first hfirst]
    exact Rung.reach_bind (Tier.result_climb_eq_reach sentinel _ hlater)

/-- The joins of a first step in order are piled up rung by rung. -/
theorem Step.result_tier_eq_reach (alone : Bool) : (step : Step) →
    step.checkFirst alone = .ok () →
    (step.tier sentinel alone).result =
      Rung.reach maxJoinDepth (step.rungs 0) ⟨step.pile sentinel [], step.levels 0⟩
  | .relation hop, _ => Step.result_tier_relation sentinel alone hop
  | .group origin branches, h => by
    rw [Step.checkFirst] at h
    rw [Step.result_tier_group, Step.levels, Nat.zero_max]
    split at h
    · cases h
    · split at h
      · cases h
      · exact Chain.result_tiers_eq_reach branches h

/-- The joins of branches in order are piled up rung by rung. -/
theorem Chain.result_tiers_eq_reach : (branches : List Chain) →
    Chain.checkAll branches = .ok () →
    (Chain.tiers sentinel branches).result =
      Rung.reach maxJoinDepth (Chain.allRungs branches)
        ⟨Chain.pileAll sentinel branches, Chain.maxLevels branches⟩
  | [], _ => rfl
  | branch :: rest, h => by
    rw [Chain.checkAll] at h
    obtain ⟨_, hbranch, hrest⟩ := bind_eq_ok h
    rw [Chain.result_tiers_cons, Chain.result_tier_eq_reach branch hbranch]
    refine Rung.reach_bind ?_
    rw [Chain.result_tiers_eq_reach rest hrest]
    exact Rung.reach_map _ _ fun others : Tier =>
      (⟨branch.pile sentinel ++ others.joins, max branch.levels others.depth⟩ : Tier)

end

/-- The joins of a chain in order are piled up, unless they nest too deep. -/
theorem Chain.limited_tier (chain : Chain) (h : chain.check = .ok ()) :
    Limited maxJoinDepth chain.levels ⟨chain.pile sentinel, chain.levels⟩
      (chain.tier sentinel).result := by
  rw [chain.result_tier_eq_reach sentinel h]
  exact Rung.limited_reach chain.forall_rungs_le_iff _

/-- The joins of a chain in order are built unless they nest too deep. -/
theorem Chain.limited_joins (chain : Chain) (h : chain.check = .ok ()) :
    Limited maxJoinDepth chain.levels (chain.pile sentinel) (chain.joins sentinel).result := by
  rw [Chain.result_joins, h]
  exact (chain.limited_tier sentinel h).map Tier.joins

/-- **The limit of a chain.** A chain in order compiles to its joins if they nest within the limit,
and is refused as too deep if they do not. -/
theorem Chain.limited_compile (chain : Chain) (h : chain.check = .ok ()) :
    Limited maxJoinDepth chain.levels (Join.clauses (chain.pile sentinel))
      (chain.compile sentinel).result := by
  rw [Chain.compile, Traced.result_bind]
  exact (chain.limited_joins sentinel h).map Join.clauses

end Semijoin
