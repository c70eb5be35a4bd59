import Semijoin.Proofs.Chain.Climbing
import Semijoin.Proofs.Chain.Spots
import Semijoin.Proofs.Join.Rendering

/-!
# How the joins of a chain nest

A chain that compiles has a single outermost join, that of its last step. In the join of every step
there are those of the steps that lead on to it and no others, so all relations of the chain and of
its branches have one join each.
-/

namespace Semijoin

mutual

/-- The joins in a join, itself included. Those that it restricts its target by come first. -/
def Join.all : Join → List Join
  | .resolved source target attached =>
    Attachment.allJoins attached ++ [.resolved source target attached]
  | .unresolved source path sentinel => [.unresolved source path sentinel]

/-- The joins in restrictions. -/
def Attachment.allJoins : List Attachment → List Join
  | [] => []
  | .clause _ _ :: rest => Attachment.allJoins rest
  | .join join _ :: rest => join.all ++ Attachment.allJoins rest

end

namespace Attachment

/-- The joins in two lists of restrictions are those in each. -/
theorem allJoins_append (first second : List Attachment) :
    allJoins (first ++ second) = allJoins first ++ allJoins second := by
  induction first with
  | nil => rfl
  | cons attachment rest ih =>
    cases attachment <;> simp only [List.cons_append, allJoins, ih, List.append_assoc]

/-- Clauses hold no joins. -/
theorem allJoins_clauseAttachments (clauses : List Clause) :
    allJoins (Join.clauseAttachments clauses) = [] := by
  induction clauses with
  | nil => rfl
  | cons clause rest ih => exact ih

/-- Nested joins hold themselves and the joins in them. -/
theorem allJoins_joinAttachments (joins : List (Join × Bool)) :
    allJoins (Join.joinAttachments joins) = joins.flatMap fun nested => nested.1.all := by
  induction joins with
  | nil => rfl
  | cons join rest ih => exact congrArg (join.1.all ++ ·) ih

end Attachment

/-- The joins in that of a step are those in the joins below it, and itself. -/
theorem Hop.all_joinOver {hop : Hop} (h : hop.joined.indices ≠ []) (sentinel : String)
    (below : List (Join × Bool)) :
    (hop.joinOver sentinel below).1.all =
      (below.flatMap fun nested => nested.1.all) ++ [(hop.joinOver sentinel below).1] := by
  simp only [joinOver_of_indices h, Join.all, Attachment.allJoins_append,
    Attachment.allJoins_clauseAttachments, Attachment.allJoins_joinAttachments, List.nil_append]

section Piling

variable (sentinel : String)

mutual

/-- The outermost joins of a chain, however deep they nest. -/
def Chain.pile : Chain → List (Join × Bool)
  | ⟨_, steps⟩ => Step.pileAll [] steps

/-- The outermost joins of some steps over those below them. -/
def Step.pileAll (below : List (Join × Bool)) : List Step → List (Join × Bool)
  | [] => below
  | step :: rest => Step.pileAll (step.pile below) rest

/-- The outermost joins of a step. -/
def Step.pile (below : List (Join × Bool)) : Step → List (Join × Bool)
  | .relation hop => [hop.joinOver sentinel below]
  | .group _ branches => below ++ Chain.pileAll branches

/-- The outermost joins of branches side by side. -/
def Chain.pileAll : List Chain → List (Join × Bool)
  | [] => []
  | branch :: rest => branch.pile ++ Chain.pileAll rest

end

variable {sentinel : String}

/-- Climbing steps piles up their joins. -/
theorem Tier.joins_climb {tier last : Tier} {steps : List Step}
    (h : (tier.climb sentinel steps).result = .ok last) :
    last.joins = Step.pileAll sentinel tier.joins steps := by
  induction steps generalizing tier with
  | nil =>
    cases h
    rfl
  | cons step rest ih =>
    cases step with
    | group origin branches => cases h
    | relation hop =>
      rw [result_climb_relation] at h
      split at h
      · cases h
      · exact ih h

mutual

/-- The joins of a chain are piled up from its first step to the last. -/
theorem Chain.joins_tier : (chain : Chain) → ∀ {tier : Tier},
    (chain.tier sentinel).result = .ok tier → tier.joins = chain.pile sentinel
  | ⟨_, []⟩, tier, h => by
    cases h
    rfl
  | ⟨_, first :: rest⟩, tier, h => by
    rw [Chain.result_tier_cons] at h
    obtain ⟨lowest, hlowest, h⟩ := bind_eq_ok h
    rw [Tier.joins_climb h, Step.joins_tier rest.isEmpty first hlowest]
    rfl

/-- The joins of a first step are its own, over no others. -/
theorem Step.joins_tier (last : Bool) : (step : Step) → ∀ {tier : Tier},
    (step.tier sentinel last).result = .ok tier → tier.joins = step.pile sentinel []
  | .relation hop, tier, h => by
    rw [Step.result_tier_relation] at h
    cases h
    rfl
  | .group origin branches, tier, h => by
    rw [Step.result_tier_group] at h
    exact Chain.joins_tiers branches h

/-- The joins of branches are those of every branch. -/
theorem Chain.joins_tiers : (branches : List Chain) → ∀ {tier : Tier},
    (Chain.tiers sentinel branches).result = .ok tier → tier.joins = Chain.pileAll sentinel branches
  | [], tier, h => by
    cases h
    rfl
  | branch :: rest, tier, h => by
    rw [Chain.result_tiers_cons] at h
    obtain ⟨first, hfirst, h⟩ := bind_eq_ok h
    obtain ⟨others, hothers, h⟩ := bind_eq_ok h
    cases h
    rw [Chain.joins_tier branch hfirst, Chain.joins_tiers rest hothers]
    rfl

end

/-- The step behind some others has its joins over theirs. -/
theorem Step.pileAll_concat (below : List (Join × Bool)) (steps : List Step) (step : Step) :
    Step.pileAll sentinel below (steps ++ [step]) =
      step.pile sentinel (Step.pileAll sentinel below steps) := by
  induction steps generalizing below with
  | nil => rfl
  | cons first rest ih => exact ih _

/-- Branches pile up their joins one by one. -/
theorem Chain.pileAll_eq_flatMap (branches : List Chain) :
    Chain.pileAll sentinel branches = branches.flatMap (Chain.pile sentinel) := by
  induction branches with
  | nil => rfl
  | cons branch rest ih => exact congrArg (branch.pile sentinel ++ ·) ih

end Piling

/-- The clause of a step over some joins. It carries the clauses of the side that the step collects
from, and then the joins. -/
def Hop.clauseOver (hop : Hop) (below : List (Join × Bool)) : Json :=
  Join.clauseOver hop.filtered.path hop.joined.toTarget hop.joined.queries below

/-- The join of a step has the clause over the joins below it as its text. -/
theorem Hop.toJson_joinOver {hop : Hop} (h : hop.joined.indices ≠ []) (sentinel : String)
    (below : List (Join × Bool)) :
    (hop.joinOver sentinel below).1.toJson = hop.clauseOver below := by
  rw [joinOver_of_indices h]
  exact Join.toJson_resolved _ _ _ _

namespace Chain

variable (sentinel : String) (chain : Chain)

/-- The outermost joins of the steps of a chain that come before a position. -/
def pileTo (position : Nat) : List (Join × Bool) :=
  Step.pileAll sentinel [] (chain.steps.take position)

/-- The join of the relation at a spot, negated or not. At other spots it means nothing. -/
def joinAt (spot : Spot) : Join × Bool :=
  match chain.at? spot.branches, chain.hop? spot with
  | some branch, some hop => hop.joinOver sentinel (branch.pileTo sentinel spot.position)
  | _, _ => (.unresolved "" "" "", false)

variable {sentinel chain}

/-- The join at a spot is that of the relation there over those of the steps before it. -/
theorem joinAt_eq {spot : Spot} {branch : Chain} {hop : Hop}
    (hbranch : chain.at? spot.branches = some branch)
    (hstep : branch.steps[spot.position]? = some (.relation hop)) :
    chain.joinAt sentinel spot = hop.joinOver sentinel (branch.pileTo sentinel spot.position) := by
  have hhop := hop?_eq_some_iff.mpr ⟨branch, hbranch, hstep⟩
  simp only [joinAt, hbranch, hhop]

/-- The join at a spot in a branch is that at the spot seen from the branch. -/
theorem joinAt_append (sentinel : String) {numbers : List Nat} {branch : Chain}
    (hbranch : chain.at? numbers = some branch) (spot : Spot) :
    chain.joinAt sentinel ⟨numbers ++ spot.branches, spot.position⟩ =
      branch.joinAt sentinel spot := by
  have hat : chain.at? (numbers ++ spot.branches) = branch.at? spot.branches := by
    rw [at?_append, hbranch]
    rfl
  simp only [joinAt, hop?, hat]

/-- The joins before the position of a step, and its own over them. -/
theorem pileTo_succ {position : Nat} {step : Step} (hstep : chain.steps[position]? = some step) :
    chain.pileTo sentinel (position + 1) = step.pile sentinel (chain.pileTo sentinel position) := by
  rw [pileTo, List.take_add_one, hstep]
  exact Step.pileAll_concat _ _ _

/-- Without all steps there is nothing left out below. -/
theorem pile_eq_pileTo : chain.pile sentinel = chain.pileTo sentinel chain.steps.length := by
  rw [pileTo, List.take_length]
  cases chain
  rfl

/-- The outermost joins of a chain in order are that of its last step. -/
theorem InOrder.pile_eq (h : chain.InOrder) :
    chain.pile sentinel = [chain.joinAt sentinel ⟨[], chain.lastPosition⟩] := by
  obtain ⟨hop, hlast⟩ := h.exists_last
  have hlength := (List.getElem?_eq_some_iff.mp hlast).1
  have hsucc : chain.steps.length = chain.lastPosition + 1 := by
    rw [lastPosition]
    omega
  rw [pile_eq_pileTo, hsucc, pileTo_succ hlast, joinAt_eq rfl hlast]
  rfl

/-- The joins below that of a spot are those of the spots before it. -/
theorem InOrder.pileTo_eq (h : chain.InOrder) {numbers : List Nat} {position : Nat} {branch : Chain}
    {hop : Hop} (hbranch : chain.at? numbers = some branch)
    (hstep : branch.steps[position]? = some (.relation hop)) :
    branch.pileTo sentinel position =
      (chain.before ⟨numbers, position⟩).map (chain.joinAt sentinel) := by
  cases position with
  | zero => rfl
  | succ position =>
    have hlength := (List.getElem?_eq_some_iff.mp hstep).1
    obtain ⟨step, hprevious⟩ : ∃ step, branch.steps[position]? = some step :=
      ⟨_, List.getElem?_eq_getElem (by omega)⟩
    rw [pileTo_succ hprevious]
    cases step with
    | relation previous =>
      rw [before_of_relation hbranch hprevious, List.map_singleton,
        joinAt_eq hbranch hprevious]
      rfl
    | group origin branches =>
      obtain ⟨rfl, hbranches⟩ := (h.of_at? hbranch).of_group hprevious
      have hinner (number : Nat) (hnumber : number < branches.length) :
          chain.at? (numbers ++ [number]) = some branches[number] := by
        rw [at?_concat, hbranch]
        exact hbranches ▸ List.getElem?_eq_getElem hnumber
      have hpiles : branches.flatMap (pile sentinel) =
          branches.map fun inner => inner.joinAt sentinel ⟨[], inner.lastPosition⟩ := by
        rw [List.map_eq_flatMap]
        refine List.flatMap_congr fun inner hmem => InOrder.pile_eq ?_
        exact (h.of_at? hbranch).of_mem_branches (hbranches ▸ hmem)
      rw [before_of_group hbranch hprevious, Step.pile, pileAll_eq_flatMap, hpiles]
      refine List.ext_getElem (by simp [pileTo, Step.pileAll]) fun number hnumber hnumber' => ?_
      simp only [pileTo, List.take_zero, Step.pileAll, List.nil_append, List.getElem_map,
        List.getElem_mapIdx]
      simp only [List.length_map, List.length_mapIdx] at hnumber'
      have hjoin := joinAt_append sentinel (hinner number hnumber')
        ⟨[], branches[number].lastPosition⟩
      rw [List.append_nil] at hjoin
      exact hjoin.symm

/-- The join of a relation comes behind those of the steps before it. -/
theorem flatMap_all_pileTo_succ {position : Nat} {hop : Hop}
    (hstep : chain.steps[position]? = some (.relation hop)) (hindices : hop.joined.indices ≠ []) :
    ((chain.pileTo sentinel (position + 1)).flatMap fun join => join.1.all) =
      ((chain.pileTo sentinel position).flatMap fun join => join.1.all) ++
        [(chain.joinAt sentinel ⟨[], position⟩).1] := by
  rw [pileTo_succ hstep, Step.pile, List.flatMap_singleton, Hop.all_joinOver hindices,
    joinAt_eq rfl hstep]

/-- The joins of the relations that follow some steps come behind those of these steps. -/
theorem flatMap_all_of_steps {first : List Step} {hops : List Hop}
    (hsteps : chain.steps = first ++ hops.map .relation)
    (hindices : ∀ spot hop, chain.hop? spot = some hop → hop.joined.indices ≠ []) :
    ((chain.pile sentinel).flatMap fun join => join.1.all) =
      ((chain.pileTo sentinel first.length).flatMap fun join => join.1.all) ++
        (Step.allSpots first.length (hops.map .relation)).map fun spot =>
          (chain.joinAt sentinel spot).1 := by
  -- The relations are gone through one by one.
  have hcounted (count : Nat) (hcount : count ≤ hops.length) :
      ((chain.pileTo sentinel (first.length + count)).flatMap fun join => join.1.all) =
        ((chain.pileTo sentinel first.length).flatMap fun join => join.1.all) ++
          (List.range' first.length count).map fun position =>
            (chain.joinAt sentinel ⟨[], position⟩).1 := by
    induction count with
    | zero => simp
    | succ count ih =>
      have hstep : chain.steps[first.length + count]? = some (.relation hops[count]) := by
        rw [hsteps, List.getElem?_append_right (by omega), List.getElem?_map]
        simp
      have hjoined := hindices ⟨[], _⟩ _ (hop?_eq_some_iff.mpr ⟨_, rfl, hstep⟩)
      rw [← Nat.add_assoc, flatMap_all_pileTo_succ hstep hjoined, ih (by omega),
        List.append_assoc, List.range'_concat, List.map_append, Nat.one_mul]
      rfl
  have hlength : chain.steps.length = first.length + hops.length := by simp [hsteps]
  rw [pile_eq_pileTo, hlength, hcounted _ (Nat.le_refl _), Step.allSpots_relations, List.map_map]
  rfl

/-- The joins of branches hold those of the relations in the branches. -/
theorem flatMap_all_pileAll {branches : List Chain} (hbranches : chain.branches = branches)
    (hall : ∀ branch ∈ branches, ((branch.pile sentinel).flatMap fun join => join.1.all) =
      branch.spots.map fun spot => (branch.joinAt sentinel spot).1) :
    ((pileAll sentinel branches).flatMap fun join => join.1.all) =
      (allSpots 0 branches).map fun spot => (chain.joinAt sentinel spot).1 := by
  have hinside (offset : Nat) (branch : Chain) (hbranch : branches[offset]? = some branch)
      (spot : Spot) : (chain.joinAt sentinel (spot.inside (0 + offset))).1 =
        (branch.joinAt sentinel spot).1 := by
    have hat : chain.at? [offset] = some branch := by
      rw [at?, hbranches, hbranch]
      rfl
    rw [Nat.zero_add]
    exact congrArg Prod.fst (joinAt_append sentinel hat spot)
  rw [map_allSpots hinside, pileAll_eq_flatMap, List.flatMap_assoc]
  exact List.flatMap_congr hall

/-- The joins in those of a chain in order are those of its relations. -/
theorem InOrder.flatMap_all (h : chain.InOrder)
    (hindices : ∀ spot hop, chain.hop? spot = some hop → hop.joined.indices ≠ []) :
    ((chain.pile sentinel).flatMap fun join => join.1.all) =
      chain.spots.map fun spot => (chain.joinAt sentinel spot).1 := by
  induction h with
  | relations hne hlast => exact flatMap_all_of_steps (List.nil_append _).symm hindices
  | @grouped origin group branches hops hne hlast hbranches hall ih =>
    let whole : Chain := ⟨origin, .group group branches :: hops.map .relation⟩
    have hsteps : whole.steps = [.group group branches] ++ hops.map .relation := rfl
    have hbranches' : whole.branches = branches := rfl
    have hinside (branch : Chain) (hbranch : branch ∈ branches) (spot : Spot) (hop : Hop)
        (hhop : branch.hop? spot = some hop) : hop.joined.indices ≠ [] := by
      obtain ⟨number, hnumber, rfl⟩ := List.getElem_of_mem hbranch
      refine hindices (spot.inside number) hop ?_
      rw [hop?_inside]
      exact Option.bind_eq_some_iff.mpr ⟨_, List.getElem?_eq_getElem hnumber, hhop⟩
    have hgroup := flatMap_all_pileAll hbranches' fun branch hbranch =>
      ih branch hbranch (hinside branch hbranch)
    rw [flatMap_all_of_steps hsteps hindices, spots, Step.allSpots, List.map_append, Step.spots,
      ← hgroup]
    rfl

/-- **The joins of a chain nest as its steps follow each other.** A chain that compiles, and that
collects from no side without an index, compiles to a single clause, that of the join of its last
step. The joins in it are those of the relations of the chain and of its branches, one each and in
the order in which they are written. The join of a relation leads from the filtered field to the
target of the side that the relation collects from, and inside it there are the joins of those
relations that lead on to it. Every relation but the last one leads on to another: the one after it
or, at the end of a branch, the one behind the group. -/
theorem nesting_compile {chain : Chain} {sentinel : String} {clauses : List Json}
    (h : (chain.compile sentinel).result = .ok clauses)
    (hindices : ∀ spot hop, chain.hop? spot = some hop → hop.joined.indices ≠ []) :
    ∃ join : Spot → Join × Bool,
      clauses = [(join chain.last).1.outerJson (join chain.last).2] ∧
      (join chain.last).1.all = chain.spots.map (fun spot => (join spot).1) ∧
      chain.spots.Nodup ∧ (∀ spot, spot ∈ chain.spots ↔ ∃ hop, chain.hop? spot = some hop) ∧
      ∀ spot hop, chain.hop? spot = some hop →
        join spot = (.resolved hop.filtered.path hop.joined.toTarget
          (Join.clauseAttachments hop.joined.queries ++
            Join.joinAttachments ((chain.before spot).map join)), hop.negate) ∧
        (join spot).1.toJson = hop.clauseOver ((chain.before spot).map join) ∧
        (∀ other, other ∈ chain.before spot ↔
          other ∈ chain.spots ∧ chain.after? other = some spot) ∧
        (spot = chain.last ∨ ∃ next ∈ chain.spots, chain.after? spot = some next) := by
  obtain ⟨joins, hjoins, h⟩ := Traced.bind_eq_ok h
  cases h
  have hresult := chain.result_joins sentinel
  rw [hjoins] at hresult
  obtain ⟨_, hcheck, hresult⟩ := bind_eq_ok hresult.symm
  obtain ⟨tier, htier, hresult⟩ := bind_eq_ok hresult
  cases hresult
  have horder := inOrder_of_check chain hcheck
  have hspots (spot : Spot) : spot ∈ chain.spots ↔ ∃ hop, chain.hop? spot = some hop :=
    horder.mem_spots_iff.trans Option.isSome_iff_exists
  have hpile : tier.joins = [chain.joinAt sentinel chain.last] :=
    (joins_tier chain htier).trans horder.pile_eq
  refine ⟨chain.joinAt sentinel, ?_, ?_, horder.nodup_spots, hspots, fun spot hop hhop => ?_⟩
  · rw [hpile]
    rfl
  · rw [← horder.flatMap_all hindices, horder.pile_eq, List.flatMap_singleton]
    rfl
  · obtain ⟨branch, hbranch, hstep⟩ := hop?_eq_some_iff.mp hhop
    have hjoin : chain.joinAt sentinel spot =
        hop.joinOver sentinel ((chain.before spot).map (chain.joinAt sentinel)) := by
      rw [joinAt_eq hbranch hstep, horder.pileTo_eq hbranch hstep]
    have hjoined := hindices spot hop hhop
    refine ⟨?_, ?_, fun other => ?_, ?_⟩
    · rw [hjoin, Hop.joinOver_of_indices hjoined]
    · rw [hjoin, Hop.toJson_joinOver hjoined]
    · rw [hspots, horder.mem_before_iff hhop]
    · simpa only [hspots, ← exists_and_left, and_comm] using horder.eq_last_or_after? hhop

/-- A step from a field to the documents of an index. -/
def stepTo (source index : String) (negate : Bool) : Step :=
  .relation ⟨Endpoint.ofIndex index "id", Endpoint.ofIndex "b" source, negate, Pointer.root⟩

/-- A chain behind a group of two branches, of which the first has two steps. -/
def forked : Chain :=
  ⟨Pointer.root, [.group Pointer.root [
    ⟨Pointer.root, [stepTo "to_e" "e" true, stepTo "to_d" "d" false]⟩,
    ⟨Pointer.root, [stepTo "to_c" "c" true]⟩],
    stepTo "to_b" "b" true]⟩

/-- The joins of a chain with two branches come in the order of its steps, those of the branches
inside the last one and the negated one of them excluded. -/
theorem nesting_compile_forked : ∃ (clauses : List Json) (join : Spot → Join × Bool),
    (forked.compile ".filterjoin").result = .ok clauses ∧
      clauses = [.boolean "must_not" [(join ⟨[], 1⟩).1.toJson]] ∧
      (join ⟨[], 1⟩).1.all.map Join.source = ["to_e", "to_d", "to_c", "to_b"] ∧
      forked.before ⟨[], 1⟩ = [⟨[0], 1⟩, ⟨[1], 0⟩] ∧
      (join ⟨[0], 1⟩).2 = false ∧ (join ⟨[1], 0⟩).2 = true := by
  have hcompile : ∃ clauses, (forked.compile ".filterjoin").result = .ok clauses := ⟨_, rfl⟩
  obtain ⟨clauses, hclauses⟩ := hcompile
  have hspots : forked.spots = [⟨[0], 0⟩, ⟨[0], 1⟩, ⟨[1], 0⟩, ⟨[], 1⟩] := rfl
  have hindices (spot : Spot) (hop : Hop) (hhop : forked.hop? spot = some hop) :
      hop.joined.indices ≠ [] := by
    have hspot := (inOrder_of_check forked rfl).mem_spots_iff.mpr (Option.isSome_of_eq_some hhop)
    simp only [hspots, List.mem_cons, List.not_mem_nil, or_false] at hspot
    rcases hspot with rfl | rfl | rfl | rfl <;> cases hhop <;> exact List.cons_ne_nil _ _
  obtain ⟨join, houter, hall, -, -, hsteps⟩ := nesting_compile hclauses hindices
  have he := (hsteps ⟨[0], 0⟩ _ rfl).1
  have hd := (hsteps ⟨[0], 1⟩ _ rfl).1
  have hc := (hsteps ⟨[1], 0⟩ _ rfl).1
  have hb := (hsteps ⟨[], 1⟩ _ rfl).1
  change clauses = [(join ⟨[], 1⟩).1.outerJson (join ⟨[], 1⟩).2] at houter
  change (join ⟨[], 1⟩).1.all = _ at hall
  refine ⟨clauses, join, hclauses, ?_, ?_, rfl, ?_, ?_⟩
  · rw [houter, hb]
    rfl
  · rw [hall, hspots, List.map_map]
    simp only [List.map_cons, List.map_nil, Function.comp_apply, he, hd, hc, hb, Join.source,
      Endpoint.ofIndex]
  · rw [hd]
  · rw [hc]

end Chain

end Semijoin
