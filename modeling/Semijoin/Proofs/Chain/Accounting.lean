import Semijoin.Proofs.Chain.Ascent
import Semijoin.Proofs.Chain.Refusal

/-!
# What a chain reports

A chain that compiles reports its relations one by one, in the order in which they are written. Each
clause and each join is in the join that it restricts, or its loss is reported: clauses on a
filtered side that are ignored, and whatever is attached to a join that matches nothing.
-/

namespace Semijoin

namespace Chain

variable (sentinel : String) (chain : Chain)

/-- What the relation at a spot reports. -/
def reportsAt (spot : Spot) : List Event :=
  ((chain.hop? spot).map fun hop =>
    hop.reports sentinel ((chain.before spot).map (chain.joinAt sentinel))).getD []

variable {sentinel chain}

/-- What a relation reports is told by the joins of the steps before it. -/
theorem InOrder.reportsAt_eq (h : chain.InOrder) {spot : Spot} {branch : Chain} {hop : Hop}
    (hbranch : chain.at? spot.branches = some branch)
    (hstep : branch.steps[spot.position]? = some (.relation hop)) :
    chain.reportsAt sentinel spot =
      hop.reports sentinel (branch.pileTo sentinel spot.position) := by
  rw [reportsAt, hop?_eq_some_iff.mpr ⟨branch, hbranch, hstep⟩, Option.map_some, Option.getD_some,
    h.pileTo_eq hbranch hstep]

/-- A relation in a branch reports the same seen from the chain around the branch. -/
theorem InOrder.reportsAt_inside (h : chain.InOrder) {number : Nat} {branch : Chain}
    (hbranch : chain.branches[number]? = some branch) (spot : Spot) :
    chain.reportsAt sentinel (spot.inside number) = branch.reportsAt sentinel spot := by
  have horder := h.of_mem_branches (List.mem_of_getElem? hbranch)
  cases hhop : branch.hop? spot with
  | none =>
    have hnone : chain.hop? (spot.inside number) = none := by
      rw [hop?_inside, hbranch]
      exact hhop
    rw [reportsAt, reportsAt, hnone, hhop]
    rfl
  | some hop =>
    obtain ⟨inner, hinner, hstep⟩ := hop?_eq_some_iff.mp hhop
    have houter : chain.at? (spot.inside number).branches = some inner := by
      rw [Spot.inside, at?, hbranch]
      exact hinner
    rw [h.reportsAt_eq houter hstep, horder.reportsAt_eq hinner hstep]
    rfl

/-- The relations in the branches of a chain report the same seen from the chain. -/
theorem InOrder.flatMap_allSpots (h : chain.InOrder) {branches : List Chain}
    (hbranches : chain.branches = branches) :
    (allSpots 0 branches).flatMap (chain.reportsAt sentinel) =
      branches.flatMap fun branch => branch.spots.flatMap (branch.reportsAt sentinel) := by
  have hinside (offset : Nat) (branch : Chain) (hbranch : branches[offset]? = some branch)
      (spot : Spot) : chain.reportsAt sentinel (spot.inside (0 + offset)) =
        branch.reportsAt sentinel spot := by
    rw [Nat.zero_add]
    exact h.reportsAt_inside (hbranches ▸ hbranch) spot
  rw [List.flatMap_def, map_allSpots hinside]
  simp only [List.flatMap_def, List.flatten_flatten, List.map_map]
  rfl

/-- Relations that are climbed from the tier of the steps before them report one by one. -/
theorem InOrder.events_foldlM_climbOver (h : chain.InOrder) (first : List Step) {hops : List Hop}
    (hsteps : chain.steps = first ++ hops.map .relation) {tier last : Tier}
    (hjoins : tier.joins = chain.pileTo sentinel first.length)
    (hlast : (hops.foldlM (Hop.climbOver sentinel) tier).result = .ok last) :
    (hops.foldlM (Hop.climbOver sentinel) tier).events =
      (Step.allSpots first.length (hops.map .relation)).flatMap (chain.reportsAt sentinel) := by
  induction hops generalizing first tier with
  | nil => rfl
  | cons hop rest ih =>
    have hstep : chain.steps[first.length]? = some (.relation hop) := by
      rw [hsteps, List.getElem?_append_right (Nat.le_refl _), Nat.sub_self]
      rfl
    have hreports : chain.reportsAt sentinel ⟨[], first.length⟩ = hop.reports sentinel tier.joins :=
      by rw [h.reportsAt_eq rfl hstep, hjoins]
    rw [List.foldlM_cons, Hop.climbOver] at hlast ⊢
    split at hlast
    · cases hlast
    · rename_i hdepth
      rw [Traced.bind_of_ok rfl] at hlast
      have hbelow : [hop.joinOver sentinel tier.joins] =
          chain.pileTo sentinel (first ++ [Step.relation hop]).length := by
        rw [List.length_append, List.length_singleton, pileTo_succ hstep, hjoins]
        rfl
      have hrest := ih (first ++ [Step.relation hop])
        (by rw [hsteps, List.map_cons, List.append_cons]) hbelow hlast
      rw [if_neg hdepth, Traced.bind_of_ok rfl, List.map_cons, Step.allSpots, List.flatMap_append]
      rw [List.length_append, List.length_singleton] at hrest
      simp only [Step.spots, List.flatMap_singleton, hreports, hrest]

/-- Branches that are climbed one after the other report one after the other. -/
theorem events_tiers {branches : List Chain} {tier : Tier}
    (htier : (tiers sentinel branches).result = .ok tier) :
    (tiers sentinel branches).events =
        branches.flatMap (fun branch => (branch.tier sentinel).events) ∧
      ∀ branch ∈ branches, ∃ tier, (branch.tier sentinel).result = .ok tier := by
  induction branches generalizing tier with
  | nil => exact ⟨rfl, List.forall_mem_nil _⟩
  | cons branch rest ih =>
    rw [tiers] at htier ⊢
    obtain ⟨first, hfirst, htier⟩ := Traced.bind_eq_ok htier
    obtain ⟨others, hothers, -⟩ := Traced.bind_eq_ok htier
    obtain ⟨hevents, hall⟩ := ih hothers
    rw [Traced.bind_of_ok hfirst, Traced.bind_of_ok hothers]
    refine ⟨?_, List.forall_mem_cons.mpr ⟨⟨first, hfirst⟩, hall⟩⟩
    simp only [Traced.events_pure, List.append_nil, hevents, List.flatMap_cons]

/-- **A chain in order reports its relations one by one.** -/
theorem InOrder.events_tier (h : chain.InOrder) {tier : Tier}
    (htier : (chain.tier sentinel).result = .ok tier) :
    (chain.tier sentinel).events = chain.spots.flatMap (chain.reportsAt sentinel) := by
  induction h generalizing tier with
  | @relations origin hops hne hlast =>
    have horder : InOrder ⟨origin, hops.map .relation⟩ := .relations hne hlast
    rw [horder.tier_eq, branches_relations, Chain.hops, filterMap_hop?_relations] at htier ⊢
    exact horder.events_foldlM_climbOver [] rfl rfl htier
  | @grouped origin group branches hops hne hlast hbranches hall ih =>
    have horder : InOrder ⟨origin, .group group branches :: hops.map .relation⟩ :=
      .grouped hne hlast hbranches hall
    have hhops : Chain.hops ⟨origin, .group group branches :: hops.map .relation⟩ = hops :=
      filterMap_hop?_relations hops
    rw [horder.tier_eq, hhops] at htier ⊢
    change (tiers sentinel branches >>= _).result = _ at htier
    change (tiers sentinel branches >>= _).events = _
    obtain ⟨lowest, hlowest, htier⟩ := Traced.bind_eq_ok htier
    obtain ⟨hevents, hok⟩ := events_tiers hlowest
    have hfold := horder.events_foldlM_climbOver [.group group branches] rfl
      (joins_tiers branches hlowest) htier
    have hinside : branches.flatMap (fun branch => (branch.tier sentinel).events) =
        branches.flatMap fun branch => branch.spots.flatMap (branch.reportsAt sentinel) := by
      refine List.flatMap_congr fun branch hbranch => ?_
      obtain ⟨tier, htier⟩ := hok branch hbranch
      exact ih branch hbranch htier
    rw [Traced.bind_of_ok hlowest, hevents, hfold, hinside, spots, Step.allSpots,
      List.flatMap_append, Step.spots, horder.flatMap_allSpots (rfl : _ = branches)]
    rfl

/-- The spots before a spot are listed once each. -/
theorem nodup_before (chain : Chain) (spot : Spot) : (chain.before spot).Nodup := by
  unfold before
  split
  · split
    · exact List.nodup_singleton _
    · refine List.pairwise_iff_getElem.mpr fun one other hone hother hlt heq => ?_
      simp only [List.getElem_mapIdx, Spot.mk.injEq, List.append_cancel_left_eq, List.cons.injEq]
        at heq
      omega
    · exact List.nodup_nil
  · exact List.nodup_nil

/-- The last step of a chain leads on to none. -/
theorem after?_last (chain : Chain) : chain.after? chain.last = none := by
  exact (after?_eq rfl).trans (if_neg (Nat.lt_irrefl _))

/-- The relations of a chain and of its branches, in the order in which their joins are built. -/
def allHops (chain : Chain) : List Hop := chain.spots.filterMap chain.hop?

/-- What the relations of a chain report of some kind. -/
theorem filter_flatMap_reportsAt (kind : Event → Bool) {report : Hop → List Event}
    (h : ∀ hop below, (Hop.reports sentinel hop below).filter kind = report hop) :
    (chain.spots.flatMap (chain.reportsAt sentinel)).filter kind =
      chain.allHops.flatMap report := by
  rw [List.filter_flatMap, allHops, List.filterMap_eq_flatMap_toList, List.flatMap_assoc]
  refine List.flatMap_congr fun spot _ => ?_
  rw [reportsAt]
  cases chain.hop? spot with
  | none => rfl
  | some hop => simp [h]

/-- The warnings of the relations of a chain: one for each with clauses on its filtered side. -/
theorem filter_isWarning_reportsAt :
    (chain.spots.flatMap (chain.reportsAt sentinel)).filter Event.isWarning =
      (chain.allHops.filter fun hop => !hop.filtered.queries.isEmpty).map fun hop =>
        .queriesIgnored hop.origin := by
  have hreport (hop : Hop) (below : List (Join × Bool)) :
      (Hop.reports sentinel hop below).filter Event.isWarning =
        (Option.guard (fun hop => !hop.filtered.queries.isEmpty) hop).toList.map fun hop =>
          .queriesIgnored hop.origin := by
    have hignored : hop.ignoredReports.filter Event.isWarning = hop.ignoredReports := by
      unfold Hop.ignoredReports
      split <;> rfl
    rw [Hop.reports, List.filter_append, List.filter_append, Join.filter_isWarning_buildReports,
      Join.filter_isWarning_dropReports, List.append_nil, List.append_nil, hignored]
    by_cases hempty : hop.filtered.queries = [] <;>
      simp [Hop.ignoredReports, Option.guard, hempty]
  rw [filter_flatMap_reportsAt _ hreport, ← List.map_flatMap, ← List.filterMap_eq_flatMap_toList,
    List.filterMap_eq_filter]

/-- The joins that the relations of a chain report: one for each. -/
theorem filter_isBuilt_reportsAt :
    (chain.spots.flatMap (chain.reportsAt sentinel)).filter Event.isBuilt =
      chain.allHops.map fun hop => .joinBuilt hop.filtered.path := by
  have hreport (hop : Hop) (below : List (Join × Bool)) :
      (Hop.reports sentinel hop below).filter Event.isBuilt = [.joinBuilt hop.filtered.path] := by
    simp only [Hop.reports, List.filter_append, Join.filter_isBuilt_buildReports,
      Join.filter_isBuilt_dropReports, List.append_nil, Hop.ignoredReports]
    cases hop.filtered.queries <;> rfl
  rw [filter_flatMap_reportsAt _ hreport, List.map_eq_flatMap]

/-- The restrictions that are dropped at a spot: where the relation collects from no index, one
report for each of its clauses and then one for each join of the spots before. -/
def dropsAt (chain : Chain) (spot : Spot) : List Event :=
  ((chain.hop? spot).map fun hop =>
    if hop.joined.indices.isEmpty then
      (hop.joined.queries.map fun _ => .attachmentDropped hop.filtered.path .filter) ++
        (chain.before spot).map fun _ => .attachmentDropped hop.filtered.path .nestedJoin
    else []).getD []

/-- Of what is reported at a spot, the restrictions that are dropped. -/
theorem filter_isDropped_reportsAt (spot : Spot) :
    (chain.reportsAt sentinel spot).filter Event.isDropped = chain.dropsAt spot := by
  rw [reportsAt, dropsAt]
  cases chain.hop? spot with
  | none => rfl
  | some hop =>
    have hignored : hop.ignoredReports.filter Event.isDropped = [] := by
      unfold Hop.ignoredReports
      split <;> rfl
    simp only [Option.map_some, Option.getD_some, Hop.reports, List.filter_append, hignored,
      Join.filter_isDropped_buildReports, Join.filter_isDropped_dropReports, List.nil_append]
    by_cases hindices : hop.joined.indices = []
    · simp [Join.dropReports_bare_of_indices_eq_nil hindices, hindices, Join.clauseAttachments,
        Join.joinAttachments, Attachment.kind, Function.comp_def]
    · simp [Join.dropReports_bare_of_indices hindices, hindices]

end Chain

/-- How the relations of a chain are accounted for by the clauses that it compiles to and the events
that it reports. -/
structure Chain.Accounts (chain : Chain) (sentinel : String) (clauses : List Json)
    (events : List Event) (join : Spot → Join × Bool) : Prop where
  /-- Every relation of the chain and of its branches is listed once. -/
  nodup_spots : chain.spots.Nodup
  mem_spots_iff : ∀ spot, spot ∈ chain.spots ↔ ∃ hop, chain.hop? spot = some hop
  /-- There is a warning for each relation with clauses on its filtered side, in the order in which
  the joins are built, and no other. -/
  warned : events.filter Event.isWarning =
    (chain.allHops.filter fun hop => !hop.filtered.queries.isEmpty).map fun hop =>
      .queriesIgnored hop.origin
  /-- One join is built for each relation. -/
  built : events.filter Event.isBuilt =
    chain.allHops.map fun hop => .joinBuilt hop.filtered.path
  /-- What is attached to a join without an index is dropped, and nothing else. -/
  dropped : events.filter Event.isDropped = chain.spots.flatMap chain.dropsAt
  /-- The join of a relation that collects from an index has the clauses of that side, one by one,
  and then the joins of the relations before it. -/
  resolved : ∀ spot hop, chain.hop? spot = some hop → hop.joined.indices ≠ [] →
    join spot = (.resolved hop.filtered.path hop.joined.toTarget
      (Join.clauseAttachments hop.joined.queries ++
        Join.joinAttachments ((chain.before spot).map join)), hop.negate) ∧
    (join spot).1.toJson = hop.clauseOver ((chain.before spot).map join)
  /-- The join of a relation that collects from no index has nothing. -/
  unresolved : ∀ spot hop, chain.hop? spot = some hop → hop.joined.indices = [] →
    join spot = (.unresolved hop.filtered.path hop.joined.path sentinel, hop.negate)
  /-- Before a spot there are the relations that lead on to it, once each. -/
  before : ∀ spot hop, chain.hop? spot = some hop → (chain.before spot).Nodup ∧
    ∀ other, other ∈ chain.before spot ↔ other ∈ chain.spots ∧ chain.after? other = some spot
  /-- Every relation but the last one leads on to another. The join of the last one is the
  outermost, and the only clause. -/
  leads : ∀ spot ∈ chain.spots, spot ≠ chain.last →
    ∃ next ∈ chain.spots, chain.after? spot = some next
  after?_last : chain.after? chain.last = none
  outermost : clauses = [(join chain.last).1.outerJson (join chain.last).2]

namespace Chain

variable {sentinel : String} {chain : Chain}

/-- A chain in order that compiles gives the join of its last step. It reports its relations one by
one, and then itself. -/
theorem InOrder.compile_eq_of_ok (h : chain.InOrder) {clauses : List Json}
    (hclauses : (chain.compile sentinel).result = .ok clauses) :
    clauses = Join.clauses [chain.joinAt sentinel chain.last] ∧
      (chain.compile sentinel).events = chain.spots.flatMap (chain.reportsAt sentinel) ++
        [.chainCompiled chain.origin chain.steps.length chain.levels 1] := by
  rw [h.compile_eq] at hclauses ⊢
  obtain ⟨tier, htier, hclauses⟩ := Traced.bind_eq_ok hclauses
  have hlimited := chain.limited_tier sentinel h.check
  have hlevels : chain.levels ≤ maxJoinDepth := by
    refine Nat.le_of_not_lt fun hdeep => ?_
    obtain ⟨place, hplace⟩ := hlimited.beyond hdeep
    cases htier.symm.trans hplace
  cases htier.symm.trans (hlimited.within hlevels)
  cases hclauses
  rw [Traced.bind_of_ok htier, h.events_tier htier]
  exact ⟨congrArg Join.clauses h.pile_eq, by rw [h.pile_eq]; rfl⟩

/-- The relations of a chain in order, one by one, when they are told by the spots. -/
theorem InOrder.joinAt_eq_joinOver (h : chain.InOrder) {spot : Spot} {hop : Hop}
    (hhop : chain.hop? spot = some hop) :
    chain.joinAt sentinel spot =
      hop.joinOver sentinel ((chain.before spot).map (chain.joinAt sentinel)) := by
  obtain ⟨branch, hbranch, hstep⟩ := hop?_eq_some_iff.mp hhop
  rw [joinAt_eq hbranch hstep, h.pileTo_eq hbranch hstep]

/-- **Nothing of a chain is lost without a report.** Each clause and each join of a chain that
compiles has its place in a join, or an event reports that it is dropped or ignored. -/
theorem accounts_compile {clauses : List Json}
    (h : (chain.compile sentinel).result = .ok clauses) :
    ∃ join, chain.Accounts sentinel clauses (chain.compile sentinel).events join := by
  have horder := inOrder_of_compile h
  obtain ⟨houter, hevents⟩ := horder.compile_eq_of_ok h
  have hspots (spot : Spot) : spot ∈ chain.spots ↔ ∃ hop, chain.hop? spot = some hop :=
    horder.mem_spots_iff.trans Option.isSome_iff_exists
  refine ⟨chain.joinAt sentinel, ?_⟩
  rw [hevents]
  exact {
    nodup_spots := horder.nodup_spots
    mem_spots_iff := hspots
    warned := by
      rw [List.filter_append, filter_isWarning_reportsAt]
      exact List.append_nil _
    built := by
      rw [List.filter_append, filter_isBuilt_reportsAt]
      exact List.append_nil _
    dropped := by
      rw [List.filter_append, List.filter_flatMap]
      simp only [filter_isDropped_reportsAt]
      exact List.append_nil _
    resolved := fun spot hop hhop hindices => by
      rw [horder.joinAt_eq_joinOver hhop]
      exact ⟨Hop.joinOver_of_indices hindices sentinel _, Hop.toJson_joinOver hindices sentinel _⟩
    unresolved := fun spot hop hhop hindices => by
      rw [horder.joinAt_eq_joinOver hhop, Hop.joinOver_of_indices_eq_nil hindices]
    before := fun spot hop hhop => by
      refine ⟨chain.nodup_before spot, fun other => ?_⟩
      rw [horder.mem_before_iff hhop, hspots]
    leads := fun spot hspot hne => by
      obtain ⟨hop, hhop⟩ := (hspots spot).mp hspot
      obtain ⟨next, other, hnext, hother⟩ :=
        (horder.eq_last_or_after? hhop).resolve_left hne
      exact ⟨next, (hspots next).mpr ⟨other, hother⟩, hnext⟩
    after?_last := chain.after?_last
    outermost := houter }

/-- A chain with two branches before a step that collects from no index. -/
def adrift : Chain :=
  ⟨.root, [.group .root [
    ⟨.root, [stepTo "to_e" "e" false]⟩,
    ⟨.root, [stepTo "to_d" "d" true]⟩],
    .relation ⟨{ Endpoint.ofIndex "c" "id" with indices := [], queries := [.filter .null] },
      { Endpoint.ofIndex "b" "to_c" with queries := [.filter .null] }, false, Pointer.root.index 1⟩,
    stepTo "to_b" "b" true]⟩

/-- A step without an index drops its clause and the joins of both branches before it. The clause on
its other side is ignored. -/
theorem accounts_compile_adrift : ∃ (clauses : List Json) (join : Spot → Join × Bool),
    clauses = [.boolean "must_not" [(join ⟨[], 2⟩).1.toJson]] ∧
      join ⟨[], 2⟩ = (.resolved "to_b" (Endpoint.ofIndex "b" "id").toTarget
        [.join (.unresolved "to_c" "id" ".filterjoin") false], true) ∧
      (adrift.compile ".filterjoin").events.filter Event.isWarning =
        [.queriesIgnored (Pointer.root.index 1)] ∧
      (adrift.compile ".filterjoin").events.filter Event.isDropped =
        [.attachmentDropped "to_c" .filter, .attachmentDropped "to_c" .nestedJoin,
          .attachmentDropped "to_c" .nestedJoin] ∧
      (adrift.compile ".filterjoin").events.filter Event.isBuilt =
        [.joinBuilt "to_e", .joinBuilt "to_d", .joinBuilt "to_c", .joinBuilt "to_b"] := by
  have hcompile : ∃ clauses, (adrift.compile ".filterjoin").result = .ok clauses := ⟨_, rfl⟩
  obtain ⟨clauses, hclauses⟩ := hcompile
  obtain ⟨join, haccounts⟩ := accounts_compile hclauses
  have hbefore : adrift.before ⟨[], 2⟩ = [⟨[], 1⟩] := rfl
  have hc := haccounts.unresolved ⟨[], 1⟩ _ rfl rfl
  have hb := (haccounts.resolved ⟨[], 2⟩ _ rfl (List.cons_ne_nil _ _)).1
  have houter := haccounts.outermost
  change clauses = [(join ⟨[], 2⟩).1.outerJson (join ⟨[], 2⟩).2] at houter
  rw [hbefore, List.map_singleton, hc] at hb
  refine ⟨clauses, join, ?_, hb, haccounts.warned, haccounts.dropped, haccounts.built⟩
  rw [houter, hb]
  rfl

end Chain

end Semijoin
