import Semijoin.Proofs.Chain.Climbing
import Semijoin.Proofs.Chain.Spots
import Semijoin.Proofs.Join.Reporting

/-!
# How a chain in order is climbed

A chain in order is climbed relation by relation: each puts its join over those of the tier below it
and reports what becomes of its clauses. What stands in front of the relations, a group or nothing,
gives the lowest tier.
-/

namespace Semijoin

namespace Hop

/-- What a step reports about the clauses on its filtered side, which are ignored. -/
def ignoredReports (hop : Hop) : List Event :=
  if hop.filtered.queries.isEmpty then [] else [.queriesIgnored hop.origin]

/-- What a step reports when its join is put over those below it. -/
def reports (sentinel : String) (hop : Hop) (below : List (Join × Bool)) : List Event :=
  hop.ignoredReports ++ Join.buildReports sentinel hop.filtered.path hop.joined ++
    (Join.bare sentinel hop.filtered.path hop.joined).dropReports
      (Join.clauseAttachments hop.joined.queries ++ Join.joinAttachments below)

/-- Puts the join of a step over those of a tier, unless they nest as deep as joins may. -/
def climbOver (sentinel : String) (tier : Tier) (hop : Hop) : Compilation Tier :=
  if maxJoinDepth ≤ tier.depth then Traced.fail (.malformed .tooDeep hop.origin)
  else ⟨hop.reports sentinel tier.joins, .ok ⟨[hop.joinOver sentinel tier.joins], tier.depth + 1⟩⟩

/-- A last step, which reports no ignored clauses, has none to report. -/
theorem reportIgnored_bind {α : Type} {hop : Hop} {last : Bool}
    (h : last = true → hop.filtered.queries = []) (next : Compilation α) :
    (do
      if !last then hop.reportIgnored
      next : Compilation α) = ⟨hop.ignoredReports ++ next.events, next.result⟩ := by
  cases last with
  | true =>
    have hnone : hop.ignoredReports = [] := by simp [ignoredReports, h rfl]
    rw [hnone]
    rfl
  | false =>
    have hreport : hop.reportIgnored = ⟨hop.ignoredReports, .ok ()⟩ := by
      unfold reportIgnored ignoredReports
      split <;> rfl
    simp only [Bool.not_false, ↓reduceIte, hreport]
    exact Traced.bind_of_ok rfl _

/-- The reports of a step in the order in which they are made. -/
theorem reports_eq (sentinel : String) (hop : Hop) (below : List (Join × Bool)) :
    hop.reports sentinel below =
      hop.ignoredReports ++ ((hop.join sentinel).events ++
        (hop.ownJoin sentinel).dropReports (Join.joinAttachments below)) := by
  rw [reports, join_eq, ownJoin, Join.dropReports_attaching, Join.dropReports_append]
  simp only [List.append_assoc]

end Hop

namespace Tier

variable {sentinel : String}

/-- Climbing over a relation puts its join over those of the tier. -/
theorem climb_relation {tier : Tier} {hop : Hop} {rest : List Step}
    (h : rest = [] → hop.filtered.queries = []) :
    tier.climb sentinel (.relation hop :: rest) =
      hop.climbOver sentinel tier >>= fun tier => tier.climb sentinel rest := by
  rw [climb, Hop.climbOver]
  split
  · rfl
  · rw [Hop.reportIgnored_bind (by simpa using h), Hop.join_eq, Traced.bind_of_ok rfl,
      Join.attachJoins_eq, Traced.bind_of_ok rfl, Traced.bind_of_ok rfl, Hop.reports_eq,
      Hop.join_eq]
    simp only [List.append_assoc]
    rfl

/-- Relations are climbed one after the other, if the last of them has no clauses for the documents
being searched. -/
theorem climb_relations {hops : List Hop}
    (h : ∀ hop, hops.getLast? = some hop → hop.filtered.queries = []) (tier : Tier) :
    tier.climb sentinel (hops.map .relation) = hops.foldlM (Hop.climbOver sentinel) tier := by
  induction hops generalizing tier with
  | nil => rfl
  | cons hop rest ih =>
    have hlast : rest.map Step.relation = [] → hop.filtered.queries = [] := by
      intro hnil
      rw [List.map_eq_nil_iff.mp hnil] at h
      exact h hop rfl
    have hrest : ∀ last, rest.getLast? = some last → last.filtered.queries = [] := by
      intro last hlast
      refine h last ?_
      rw [List.getLast?_cons, hlast, Option.getD_some]
    rw [List.map_cons, climb_relation hlast, List.foldlM_cons]
    exact bind_congr fun tier => ih hrest tier

end Tier

/-- A relation at the beginning puts its join over nothing. -/
theorem Step.tier_relation {hop : Hop} {last : Bool}
    (h : last = true → hop.filtered.queries = []) (sentinel : String) :
    Step.tier sentinel last (.relation hop) = hop.climbOver sentinel ⟨[], 0⟩ := by
  rw [Step.tier, Hop.reportIgnored_bind h, Hop.join_eq, Traced.bind_of_ok rfl, Hop.climbOver,
    if_neg (by decide), Hop.reports_eq, Hop.join_eq]
  simp only [Hop.joinOver, Join.joinAttachments, List.map_nil, Join.attaching_nil,
    Join.dropReports_nil, Traced.events_pure, Traced.result_pure, List.append_nil]

namespace Chain

/-- The relations among the steps of a chain itself. -/
def hops (chain : Chain) : List Hop := chain.steps.filterMap Step.hop?

/-- Steps that are relations are the relations among them. -/
theorem filterMap_hop?_relations (hops : List Hop) :
    (hops.map Step.relation).filterMap Step.hop? = hops := by
  rw [List.filterMap_map]
  exact List.filterMap_some

variable {chain : Chain} {sentinel : String}

/-- **A chain in order is climbed relation by relation**, from the tier of the branches in front of
them. -/
theorem InOrder.tier_eq (h : chain.InOrder) (sentinel : String) :
    chain.tier sentinel =
      tiers sentinel chain.branches >>= fun tier =>
        chain.hops.foldlM (Hop.climbOver sentinel) tier := by
  cases h with
  | @relations origin hops hne hlast =>
    obtain ⟨hop, rest, rfl⟩ := List.exists_cons_of_ne_nil hne
    have hsilent : ∀ last, (hop :: rest).getLast? = some last → last.filtered.queries = [] := by
      intro last heq
      rw [List.getLast?_eq_some_getLast hne] at heq
      cases heq
      exact hlast
    have halone : rest.map Step.relation = [] → hop.filtered.queries = [] := by
      intro hnil
      exact hsilent hop (by rw [List.map_eq_nil_iff.mp hnil, List.getLast?_singleton])
    have hclimb := @Tier.climb_relations sentinel _ hsilent ⟨[], 0⟩
    rw [List.map_cons, Tier.climb_relation halone] at hclimb
    rw [List.map_cons, Chain.tier, Step.tier_relation (by simpa using halone), hclimb,
      ← List.map_cons, branches_relations, Chain.hops, filterMap_hop?_relations]
    rfl
  | @grouped origin group branches hops hne hlast hbranches hall =>
    have hsilent : ∀ last, hops.getLast? = some last → last.filtered.queries = [] := by
      intro last heq
      rw [List.getLast?_eq_some_getLast hne] at heq
      cases heq
      exact hlast
    rw [Chain.tier, Step.tier]
    refine bind_congr fun tier => ?_
    rw [Tier.climb_relations hsilent]
    exact congrArg (fun hops => List.foldlM _ tier hops) (filterMap_hop?_relations hops).symm

/-- A chain in order compiles to the clauses of its tier, and then reports itself. -/
theorem InOrder.compile_eq (h : chain.InOrder) (sentinel : String) :
    chain.compile sentinel = chain.tier sentinel >>= fun tier =>
      ⟨[.chainCompiled chain.origin chain.steps.length tier.depth tier.joins.length],
        .ok (Join.clauses tier.joins)⟩ := by
  have hchecked : (Traced.ofExcept (.ok ()) : Compilation Unit) = pure () := rfl
  rw [compile, joins, h.check, hchecked, pure_bind, bind_assoc]
  exact bind_congr fun tier => rfl

end Chain

end Semijoin
