import Semijoin.Chain.Climb
import Semijoin.Proofs.Join.Building

/-!
# The joins of a chain step by step

Climbing a chain reports events on its way. Its outcome is told here without them: what a step
adds to the joins below it, and where the limit of the nesting is met.
-/

namespace Semijoin

/-- The join of a step before the joins below it are attached. -/
def Hop.ownJoin (sentinel : String) (hop : Hop) : Join :=
  (Join.bare sentinel hop.filtered.path hop.joined).attaching
    (Join.clauseAttachments hop.joined.queries)

/-- The join of a step with the joins below it. -/
def Hop.joinOver (sentinel : String) (hop : Hop) (below : List (Join × Bool)) : Join × Bool :=
  ((hop.ownJoin sentinel).attaching (Join.joinAttachments below), hop.negate)

namespace Hop

/-- The join of a step restricts its target by the clauses of the side that it collects from, and
then by the joins below it. -/
theorem joinOver_of_indices {hop : Hop} (h : hop.joined.indices ≠ []) (sentinel : String)
    (below : List (Join × Bool)) :
    hop.joinOver sentinel below = (.resolved hop.filtered.path hop.joined.toTarget
      (Join.clauseAttachments hop.joined.queries ++ Join.joinAttachments below), hop.negate) := by
  simp [joinOver, ownJoin, Join.bare, h, Join.attaching]

/-- Without an index to collect from, the join of a step takes neither clauses nor joins. -/
theorem joinOver_of_indices_eq_nil {hop : Hop} (h : hop.joined.indices = []) (sentinel : String)
    (below : List (Join × Bool)) :
    hop.joinOver sentinel below =
      (.unresolved hop.filtered.path hop.joined.path sentinel, hop.negate) := by
  simp [joinOver, ownJoin, Join.bare, h, Join.attaching]

/-- Reporting clauses that are ignored succeeds. -/
theorem result_reportIgnored (hop : Hop) : hop.reportIgnored.result = .ok () := by
  unfold reportIgnored
  split <;> rfl

/-- The join of a step is built with the clauses of the side that it collects from, or drops
them. -/
theorem join_eq (hop : Hop) (sentinel : String) :
    hop.join sentinel =
      ⟨Join.buildReports sentinel hop.filtered.path hop.joined ++
          (Join.bare sentinel hop.filtered.path hop.joined).dropReports
            (Join.clauseAttachments hop.joined.queries), .ok (hop.ownJoin sentinel)⟩ := by
  rw [join, Join.build_eq, Traced.bind_of_ok rfl, Join.attachClauses_eq]
  rfl

/-- Building the join of a step succeeds. -/
theorem result_join (hop : Hop) (sentinel : String) :
    (hop.join sentinel).result = .ok (hop.ownJoin sentinel) :=
  congrArg Traced.result (hop.join_eq sentinel)

/-- A report that may be left out does not change an outcome. -/
theorem result_reportIgnored_bind {α : Type} (hop : Hop) (reports : Bool)
    (next : Compilation α) :
    (do
      if reports then hop.reportIgnored
      next : Compilation α).result = next.result := by
  cases reports with
  | false => rfl
  | true =>
    simp only [↓reduceIte, Traced.result_bind, result_reportIgnored]
    rfl

end Hop

namespace Tier

variable (sentinel : String)

/-- A step puts its join over those below it, unless they nest as deep as joins may. -/
theorem result_climb_relation (tier : Tier) (hop : Hop) (rest : List Step) :
    (tier.climb sentinel (.relation hop :: rest)).result =
      if maxJoinDepth ≤ tier.depth then .error (.malformed .tooDeep hop.origin)
      else (climb sentinel ⟨[hop.joinOver sentinel tier.joins], tier.depth + 1⟩ rest).result := by
  rw [climb]
  split
  · rfl
  · rw [Hop.result_reportIgnored_bind, Traced.result_bind, Hop.result_join]
    change (((hop.ownJoin sentinel).attachJoins tier.joins) >>= _).result = _
    rw [Traced.result_bind, Join.result_attachJoins]
    rfl

end Tier

variable (sentinel : String)

/-- A relation at the beginning gives its own join. -/
theorem Step.result_tier_relation (last : Bool) (hop : Hop) :
    (Step.tier sentinel last (.relation hop)).result =
      .ok ⟨[hop.joinOver sentinel []], 1⟩ := by
  rw [Step.tier, Hop.result_reportIgnored_bind, Traced.result_bind, Hop.result_join]
  simp only [Hop.joinOver, Join.joinAttachments, List.map_nil, Join.attaching_nil]
  rfl

/-- A group at the beginning gives the joins of its branches. -/
theorem Step.result_tier_group (last : Bool) (origin : Pointer) (branches : List Chain) :
    (Step.tier sentinel last (.group origin branches)).result =
      (Chain.tiers sentinel branches).result := rfl

/-- A chain climbs from its first step over all the others. -/
theorem Chain.result_tier_cons (origin : Pointer) (first : Step) (rest : List Step) :
    (Chain.tier sentinel ⟨origin, first :: rest⟩).result =
      (first.tier sentinel rest.isEmpty).result >>= fun tier =>
        (tier.climb sentinel rest).result :=
  Traced.result_bind _ _

/-- Branches stand side by side and nest as deep as the deepest of them. -/
theorem Chain.result_tiers_cons (branch : Chain) (rest : List Chain) :
    (Chain.tiers sentinel (branch :: rest)).result =
      (branch.tier sentinel).result >>= fun first =>
        (Chain.tiers sentinel rest).result >>= fun others =>
          .ok ⟨first.joins ++ others.joins, max first.depth others.depth⟩ := by
  rw [Chain.tiers, Traced.result_bind]
  congr 1
  funext first
  rw [Traced.result_bind]
  rfl

/-- A chain compiles to the joins of its last tier, once its steps are in order. -/
theorem Chain.result_joins (chain : Chain) :
    (chain.joins sentinel).result =
      chain.check >>= fun _ => (chain.tier sentinel).result >>= fun tier => .ok tier.joins := by
  rw [joins, Traced.result_bind]
  congr 1
  funext _
  rw [Traced.result_bind]
  congr 1

end Semijoin
