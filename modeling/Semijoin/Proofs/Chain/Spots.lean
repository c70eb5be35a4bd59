import Mathlib.Data.List.Nodup
import Semijoin.Proofs.Chain.Order

/-!
# The steps of a chain and of its branches

A step is found by the branches that lead to it and by its position in the last of them. The
relations of all branches are told apart by these spots, and listed in the order in which they are
written. In a chain in order every relation but the last one leads on to another.
-/

namespace Semijoin

/-- Where a step stands in a chain. The branches are numbered from outside inwards, each among those
of the group that the chain around it begins with. -/
structure Spot where
  branches : List Nat
  position : Nat
  deriving DecidableEq, Repr

/-- A spot in a branch, seen from the chain around the branch. -/
def Spot.inside (number : Nat) (spot : Spot) : Spot :=
  { spot with branches := number :: spot.branches }

namespace Step

/-- The relation that a step is. -/
def hop? : Step → Option Hop
  | .relation hop => some hop
  | .group _ _ => none

/-- The branches of a step. A relation has none. -/
def branches : Step → List Chain
  | .relation _ => []
  | .group _ branches => branches

end Step

namespace Chain

/-- The branches of the group that a chain begins with. -/
def branches (chain : Chain) : List Chain := (chain.steps.head?.map Step.branches).getD []

/-- The branch that is reached by the numbers of the branches around it. -/
def at? : List Nat → Chain → Option Chain
  | [], chain => some chain
  | number :: rest, chain => chain.branches[number]? >>= at? rest

/-- The relation at a spot. -/
def hop? (chain : Chain) (spot : Spot) : Option Hop := do
  let branch ← chain.at? spot.branches
  let step ← branch.steps[spot.position]?
  step.hop?

/-- The position of the last step of a chain. -/
def lastPosition (chain : Chain) : Nat := chain.steps.length - 1

/-- The spot of the last step of a chain. -/
def last (chain : Chain) : Spot := ⟨[], chain.lastPosition⟩

/-- The spot that a spot leads on to: the one after it in its chain, or, at the end of a branch, the
one behind the group. Nothing follows the last step of all. -/
def after? (chain : Chain) (spot : Spot) : Option Spot := do
  let branch ← chain.at? spot.branches
  if spot.position < branch.lastPosition then return ⟨spot.branches, spot.position + 1⟩
  else if spot.branches.isEmpty then none
  else return ⟨spot.branches.dropLast, 1⟩

/-- The spots that lead on to a spot: the one before it in its chain, or, behind a group, the last
ones of the branches in their order. -/
def before (chain : Chain) (spot : Spot) : List Spot :=
  match spot.position, chain.at? spot.branches with
  | position + 1, some branch =>
    match branch.steps[position]? with
    | some (.relation _) => [⟨spot.branches, position⟩]
    | some (.group _ branches) =>
      branches.mapIdx fun number inner => ⟨spot.branches ++ [number], inner.lastPosition⟩
    | none => []
  | _, _ => []

end Chain

mutual

/-- The spots of the relations of a chain, in the order in which they are written. -/
def Chain.spots : Chain → List Spot
  | ⟨_, steps⟩ => Step.allSpots 0 steps

/-- The spots of the relations in some steps, from a position on. -/
def Step.allSpots (position : Nat) : List Step → List Spot
  | [] => []
  | step :: rest => step.spots position ++ Step.allSpots (position + 1) rest

/-- The spots of the relations in a step at some position. -/
def Step.spots (position : Nat) : Step → List Spot
  | .relation _ => [⟨[], position⟩]
  | .group _ branches => Chain.allSpots 0 branches

/-- The spots of the relations in some branches, from a number on. -/
def Chain.allSpots (number : Nat) : List Chain → List Spot
  | [] => []
  | branch :: rest => branch.spots.map (Spot.inside number) ++ Chain.allSpots (number + 1) rest

end

namespace Chain

variable {chain : Chain}

/-- A chain of relations has no branches. -/
theorem branches_relations (origin : Pointer) (hops : List Hop) :
    branches ⟨origin, hops.map .relation⟩ = [] := by
  cases hops <;> rfl

/-- The branches at the beginning of a chain in order are in order. -/
theorem InOrder.of_mem_branches (h : chain.InOrder) {branch : Chain}
    (hbranch : branch ∈ chain.branches) : branch.InOrder := by
  cases h with
  | relations hne hlast =>
    rw [branches_relations] at hbranch
    cases hbranch
  | grouped hne hlast hbranches hall => exact hall branch hbranch

/-- Every branch of a chain in order is in order. -/
theorem InOrder.of_at? {numbers : List Nat} {branch : Chain} (h : chain.InOrder)
    (hbranch : chain.at? numbers = some branch) : branch.InOrder := by
  induction numbers generalizing chain with
  | nil =>
    cases hbranch
    exact h
  | cons number rest ih =>
    obtain ⟨inner, hinner, hrest⟩ := Option.bind_eq_some_iff.mp hbranch
    exact ih (h.of_mem_branches (List.mem_of_getElem? hinner)) hrest

/-- Branches are reached one inside the other. -/
theorem at?_append (first second : List Nat) :
    chain.at? (first ++ second) = chain.at? first >>= at? second := by
  induction first generalizing chain with
  | nil => rfl
  | cons number rest ih =>
    simp only [List.cons_append, at?]
    cases chain.branches[number]? with
    | none => rfl
    | some inner => exact ih

/-- The branch with a number, in a branch that is reached. -/
theorem at?_concat (numbers : List Nat) (number : Nat) :
    chain.at? (numbers ++ [number]) =
      chain.at? numbers >>= fun branch => branch.branches[number]? := by
  rw [at?_append]
  congr 1
  funext branch
  exact bind_pure _

/-- What is at a spot in a branch is at this spot in the chain around it. -/
theorem hop?_inside (number : Nat) (spot : Spot) :
    chain.hop? (spot.inside number) =
      chain.branches[number]? >>= fun branch => branch.hop? spot := by
  simp only [hop?, Spot.inside, at?]
  cases chain.branches[number]? <;> rfl

/-- A relation is at a spot if it is a step of the branch that the spot is in. -/
theorem hop?_eq_some_iff {spot : Spot} {hop : Hop} :
    chain.hop? spot = some hop ↔ ∃ branch, chain.at? spot.branches = some branch ∧
      branch.steps[spot.position]? = some (.relation hop) := by
  rw [hop?, Option.bind_eq_bind, Option.bind_eq_some_iff]
  refine exists_congr fun branch => and_congr_right fun _ => ?_
  rw [Option.bind_eq_bind, Option.bind_eq_some_iff]
  constructor
  · rintro ⟨step, hstep, hhop⟩
    cases step with
    | relation found =>
      cases hhop
      exact hstep
    | group origin branches => cases hhop
  · exact fun hstep => ⟨_, hstep, rfl⟩

end Chain

namespace Step

/-- The spots of relations have their positions one behind the other. -/
theorem allSpots_relations (position : Nat) (hops : List Hop) :
    allSpots position (hops.map .relation) =
      (List.range' position hops.length).map (Spot.mk []) := by
  induction hops generalizing position with
  | nil => rfl
  | cons hop rest ih =>
    rw [List.map_cons, allSpots, ih]
    rfl

/-- The spots of relations are listed once each. -/
theorem nodup_allSpots_relations (position : Nat) (hops : List Hop) :
    (allSpots position (hops.map .relation)).Nodup := by
  rw [allSpots_relations]
  have hnodup : (List.range' position hops.length).Nodup := List.nodup_range'
  refine hnodup.map fun first second heq => ?_
  exact congrArg Spot.position heq

/-- The spots of relations are the positions from the first of them to the last, in no branch. -/
theorem mem_allSpots_relations {position : Nat} {hops : List Hop} {spot : Spot} :
    spot ∈ allSpots position (hops.map .relation) ↔
      spot.branches = [] ∧ position ≤ spot.position ∧ spot.position < position + hops.length := by
  rw [allSpots_relations, List.mem_map]
  constructor
  · rintro ⟨found, hfound, rfl⟩
    exact ⟨rfl, List.mem_range'_1.mp hfound⟩
  · rintro ⟨hnil, hrange⟩
    exact ⟨spot.position, List.mem_range'_1.mpr hrange, by rw [← hnil]⟩

/-- The relation at a position of relations. -/
theorem getElem?_relations_bind_hop? (hops : List Hop) (position : Nat) :
    (hops.map Step.relation)[position]? >>= hop? = hops[position]? := by
  rw [List.getElem?_map]
  cases hops[position]? <;> rfl

end Step

namespace Chain

/-- The spots in branches are those in one of them. -/
theorem mem_allSpots {branches : List Chain} {number : Nat} {spot : Spot} :
    spot ∈ allSpots number branches ↔ ∃ (offset : Nat) (branch : Chain) (inner : Spot),
      branches[offset]? = some branch ∧ inner ∈ branch.spots ∧
      spot = inner.inside (number + offset) := by
  induction branches generalizing number with
  | nil => simp [allSpots]
  | cons branch rest ih =>
    rw [allSpots, List.mem_append, List.mem_map, ih]
    constructor
    · rintro (⟨inner, hinner, rfl⟩ | ⟨offset, other, inner, hother, hinner, rfl⟩)
      · exact ⟨0, branch, inner, rfl, hinner, rfl⟩
      · exact ⟨offset + 1, other, inner, hother, hinner, by rw [Nat.add_assoc, Nat.add_comm 1]⟩
    · rintro ⟨offset, other, inner, hother, hinner, rfl⟩
      cases offset with
      | zero =>
        cases hother
        exact .inl ⟨inner, hinner, rfl⟩
      | succ offset =>
        refine .inr ⟨offset, other, inner, hother, hinner, ?_⟩
        rw [Nat.add_assoc, Nat.add_comm 1]

/-- A spot in a branch is among those in branches if the branch with this number is there. -/
theorem inside_mem_allSpots {branches : List Chain} {number : Nat} {spot : Spot} :
    spot.inside number ∈ allSpots 0 branches ↔
      ∃ branch : Chain, branches[number]? = some branch ∧ spot ∈ branch.spots := by
  rw [mem_allSpots]
  constructor
  · rintro ⟨offset, branch, ⟨numbers, position⟩, hbranch, hinner, heq⟩
    cases heq
    rw [Nat.zero_add]
    exact ⟨branch, hbranch, hinner⟩
  · rintro ⟨branch, hbranch, hspot⟩
    exact ⟨number, branch, spot, hbranch, hspot, by rw [Nat.zero_add]⟩

/-- What is told of the spots in branches is told of the spots of each branch. -/
theorem map_allSpots {α : Type} {branches : List Chain} {number : Nat} {f : Spot → α}
    {g : Chain → Spot → α} (h : ∀ offset branch, branches[offset]? = some branch →
      ∀ spot, f (spot.inside (number + offset)) = g branch spot) :
    (allSpots number branches).map f =
      branches.flatMap fun branch => branch.spots.map (g branch) := by
  induction branches generalizing number with
  | nil => rfl
  | cons branch rest ih =>
    have hrest := @ih (number + 1) fun offset other hother spot => by
      rw [Nat.add_assoc, Nat.add_comm 1]
      exact h (offset + 1) other hother spot
    rw [allSpots, List.map_append, hrest, List.map_map, List.flatMap_cons]
    congr 1
    exact List.map_congr_left fun spot _ => h 0 branch rfl spot

/-- No spot in branches is listed twice if none is in a branch. -/
theorem nodup_allSpots {branches : List Chain} (h : ∀ branch ∈ branches, branch.spots.Nodup)
    (number : Nat) : (allSpots number branches).Nodup := by
  induction branches generalizing number with
  | nil => exact List.nodup_nil
  | cons branch rest ih =>
    obtain ⟨hbranch, hrest⟩ := List.forall_mem_cons.mp h
    have hinjective : Function.Injective (Spot.inside number) := by
      rintro ⟨branches, position⟩ ⟨branches', position'⟩ heq
      cases heq
      rfl
    refine List.nodup_append.mpr ⟨hbranch.map hinjective, ih hrest (number + 1), ?_⟩
    rintro _ hfirst _ hother rfl
    obtain ⟨inner, -, rfl⟩ := List.mem_map.mp hfirst
    obtain ⟨offset, other, inner', -, -, heq⟩ := mem_allSpots.mp hother
    have hnumber := congrArg (fun spot : Spot => spot.branches.head?) heq
    simp only [Spot.inside, List.head?_cons, Option.some.injEq] at hnumber
    omega

variable {chain : Chain}

/-- The spots of a chain in order are listed once each. -/
theorem InOrder.nodup_spots (h : chain.InOrder) : chain.spots.Nodup := by
  induction h with
  | relations hne hlast => exact Step.nodup_allSpots_relations 0 _
  | grouped hne hlast hbranches hall ih =>
    refine List.nodup_append.mpr ⟨nodup_allSpots ih 0, Step.nodup_allSpots_relations 1 _, ?_⟩
    rintro _ hfirst _ hother rfl
    obtain ⟨offset, branch, inner, -, -, rfl⟩ := mem_allSpots.mp hfirst
    cases (Step.mem_allSpots_relations.mp hother).1

/-- The spots of a chain in order are those of its relations. -/
theorem InOrder.mem_spots_iff (h : chain.InOrder) {spot : Spot} :
    spot ∈ chain.spots ↔ (chain.hop? spot).isSome := by
  induction h generalizing spot with
  | @relations origin hops hne hlast =>
    refine Step.mem_allSpots_relations.trans ?_
    obtain ⟨_ | ⟨number, rest⟩, position⟩ := spot
    · have hhop : hop? ⟨origin, hops.map .relation⟩ ⟨[], position⟩ = hops[position]? :=
        Step.getElem?_relations_bind_hop? hops position
      simp [hhop]
    · have hhop : hop? ⟨origin, hops.map .relation⟩ ⟨number :: rest, position⟩ = none := by
        change hop? _ (Spot.inside number ⟨rest, position⟩) = none
        rw [hop?_inside, branches_relations]
        rfl
      simp [hhop]
  | @grouped origin group branches hops hne hlast hbranches hall ih =>
    have hspots : spot ∈ spots ⟨origin, .group group branches :: hops.map .relation⟩ ↔
        spot ∈ allSpots 0 branches ∨
          spot.branches = [] ∧ 1 ≤ spot.position ∧ spot.position < 1 + hops.length :=
      List.mem_append.trans (or_congr_right Step.mem_allSpots_relations)
    rw [hspots]
    obtain ⟨_ | ⟨number, rest⟩, position⟩ := spot
    · have hgroup : ⟨[], position⟩ ∉ allSpots 0 branches := fun hmem => by
        obtain ⟨offset, branch, inner, -, -, heq⟩ := mem_allSpots.mp hmem
        cases heq
      cases position with
      | zero =>
        simp only [hgroup, false_or]
        exact ⟨fun hmem => absurd hmem.2.1 (by decide), fun hmem => by cases hmem⟩
      | succ position =>
        have hhop : hop? ⟨origin, .group group branches :: hops.map .relation⟩ ⟨[], position + 1⟩ =
            hops[position]? := Step.getElem?_relations_bind_hop? hops position
        simp only [hgroup, hhop, false_or, true_and, isSome_getElem?]
        omega
    · change Spot.inside number ⟨rest, position⟩ ∈ allSpots 0 branches ∨ _ ↔
        (hop? _ (Spot.inside number ⟨rest, position⟩)).isSome
      rw [hop?_inside, inside_mem_allSpots]
      change _ ↔ (branches[number]? >>= fun branch => branch.hop? ⟨rest, position⟩).isSome
      cases hbranch : branches[number]? with
      | none => simp
      | some branch => simp [ih branch (List.mem_of_getElem? hbranch)]

/-- The last step of a chain in order is a relation. -/
theorem InOrder.exists_last (h : chain.InOrder) :
    ∃ hop, chain.steps[chain.lastPosition]? = some (.relation hop) := by
  have hlater {hops : List Hop} (hne : hops ≠ []) :
      (hops.map Step.relation)[hops.length - 1]? = some (.relation (hops.getLast hne)) := by
    rw [List.getElem?_map, ← List.getLast?_eq_getElem?, List.getLast?_eq_some_getLast hne]
    rfl
  cases h with
  | relations hne hlast =>
    refine ⟨_, (congrArg _ ?_).trans (hlater hne)⟩
    simp [lastPosition]
  | @grouped _ _ _ hops hne hlast hbranches hall =>
    have hlength := List.length_pos_iff.mpr hne
    refine ⟨_, Eq.trans ?_ (hlater hne)⟩
    rw [show lastPosition _ = (hops.length - 1) + 1 from ?_, List.getElem?_cons_succ]
    simp only [lastPosition, List.length_cons, List.length_map]
    omega

/-- A group in a chain in order is its first step. -/
theorem InOrder.of_group {position : Nat} {origin : Pointer} {branches : List Chain}
    (h : chain.InOrder) (hgroup : chain.steps[position]? = some (.group origin branches)) :
    position = 0 ∧ chain.branches = branches := by
  have hlater (hops : List Hop) (position : Nat) :
      (hops.map Step.relation)[position]? ≠ some (.group origin branches) := by
    rw [List.getElem?_map]
    cases hops[position]? <;> nofun
  cases h with
  | relations hne hlast => exact absurd hgroup (hlater _ _)
  | grouped hne hlast hbranches hall =>
    cases position with
    | zero =>
      cases hgroup
      exact ⟨rfl, rfl⟩
    | succ position => exact absurd hgroup (hlater _ _)

/-- Behind a relation there is the spot of this relation. -/
theorem before_of_relation {numbers : List Nat} {position : Nat} {branch : Chain} {hop : Hop}
    (hbranch : chain.at? numbers = some branch)
    (hstep : branch.steps[position]? = some (.relation hop)) :
    chain.before ⟨numbers, position + 1⟩ = [⟨numbers, position⟩] := by
  simp only [before, hbranch, hstep]

/-- Behind a group there are the last spots of its branches. -/
theorem before_of_group {numbers : List Nat} {position : Nat} {branch : Chain} {origin : Pointer}
    {branches : List Chain} (hbranch : chain.at? numbers = some branch)
    (hstep : branch.steps[position]? = some (.group origin branches)) :
    chain.before ⟨numbers, position + 1⟩ = branches.mapIdx fun number inner =>
      ⟨numbers ++ [number], inner.lastPosition⟩ := by
  simp only [before, hbranch, hstep]

/-- Where a spot leads to is told by the branch that it is in. -/
theorem after?_eq {spot : Spot} {branch : Chain} (hbranch : chain.at? spot.branches = some branch) :
    chain.after? spot =
      if spot.position < branch.lastPosition then some ⟨spot.branches, spot.position + 1⟩
      else if spot.branches.isEmpty then none
      else some ⟨spot.branches.dropLast, 1⟩ := by
  rw [after?, hbranch]
  rfl

/-- The spots before the spot of a relation are those of relations, and lead on to it. -/
theorem InOrder.after?_of_mem_before (h : chain.InOrder) {numbers : List Nat} {position : Nat}
    {branch : Chain} {hop : Hop} (hbranch : chain.at? numbers = some branch)
    (hstep : branch.steps[position]? = some (.relation hop)) {other : Spot}
    (hbefore : other ∈ chain.before ⟨numbers, position⟩) :
    (∃ hop, chain.hop? other = some hop) ∧ chain.after? other = some ⟨numbers, position⟩ := by
  cases position with
  | zero => cases hbefore
  | succ position =>
    have hlength := (List.getElem?_eq_some_iff.mp hstep).1
    obtain ⟨step, hprevious⟩ : ∃ step, branch.steps[position]? = some step :=
      ⟨_, List.getElem?_eq_getElem (by omega)⟩
    cases step with
    | relation previous =>
      rw [before_of_relation hbranch hprevious, List.mem_singleton] at hbefore
      subst hbefore
      have hlast : position < branch.lastPosition := by
        rw [lastPosition]
        omega
      exact ⟨⟨_, hop?_eq_some_iff.mpr ⟨_, hbranch, hprevious⟩⟩,
        (after?_eq hbranch).trans (if_pos hlast)⟩
    | group origin branches =>
      obtain ⟨rfl, hbranches⟩ := (h.of_at? hbranch).of_group hprevious
      rw [before_of_group hbranch hprevious] at hbefore
      obtain ⟨number, hnumber, rfl⟩ := List.mem_mapIdx.mp hbefore
      have hinner : chain.at? (numbers ++ [number]) = some branches[number] := by
        rw [at?_concat, hbranch]
        exact hbranches ▸ List.getElem?_eq_getElem hnumber
      obtain ⟨last, hlast⟩ := (h.of_at? hinner).exists_last
      refine ⟨⟨_, hop?_eq_some_iff.mpr ⟨_, hinner, hlast⟩⟩, ?_⟩
      rw [after?_eq hinner]
      simp

/-- A branch belongs to the group that the chain around it begins with, and a relation is behind
the group. -/
theorem InOrder.around (h : chain.InOrder) {outer : List Nat} {number : Nat} {branch : Chain}
    (hbranch : chain.at? (outer ++ [number]) = some branch) :
    ∃ around origin branches hop, chain.at? outer = some around ∧
      around.steps[0]? = some (.group origin branches) ∧ branches[number]? = some branch ∧
      around.steps[1]? = some (.relation hop) := by
  rw [at?_concat] at hbranch
  obtain ⟨around, haround, hbranch⟩ := Option.bind_eq_some_iff.mp hbranch
  refine ⟨around, ?_⟩
  cases h.of_at? haround with
  | relations hne hlast =>
    rw [branches_relations] at hbranch
    cases hbranch
  | @grouped origin group branches hops hne hlast hbranches hall =>
    obtain ⟨hop, rest, rfl⟩ := List.exists_cons_of_ne_nil hne
    exact ⟨group, branches, hop, haround, rfl, hbranch, rfl⟩

/-- A relation that leads on to a spot is before it. -/
theorem InOrder.mem_before_of_after? (h : chain.InOrder) {spot other : Spot} {hop : Hop}
    (hhop : chain.hop? other = some hop) (hafter : chain.after? other = some spot) :
    other ∈ chain.before spot := by
  obtain ⟨branch, hbranch, hstep⟩ := hop?_eq_some_iff.mp hhop
  rw [after?_eq hbranch] at hafter
  split at hafter
  · cases hafter
    rw [before_of_relation hbranch hstep]
    exact List.mem_singleton_self _
  · rename_i hlast
    split at hafter
    · cases hafter
    · rename_i hinside
      cases hafter
      obtain ⟨numbers, position⟩ := other
      obtain ⟨outer, number, rfl⟩ : ∃ outer number, numbers = outer ++ [number] := by
        rcases List.eq_nil_or_concat numbers with rfl | ⟨outer, number, rfl⟩
        · exact absurd rfl hinside
        · exact ⟨outer, number, List.concat_eq_append⟩
      have hposition : position = branch.lastPosition := by
        have hlength := (List.getElem?_eq_some_iff.mp hstep).1
        simp only [lastPosition] at *
        omega
      obtain ⟨around, origin, branches, -, haround, hgroup, hbranch, -⟩ := h.around hbranch
      obtain ⟨hnumber, rfl⟩ := List.getElem?_eq_some_iff.mp hbranch
      rw [List.dropLast_concat, before_of_group haround hgroup, hposition]
      exact List.mem_mapIdx.mpr ⟨number, hnumber, rfl⟩

/-- The spots before the spot of a relation are those of the relations that lead on to it. -/
theorem InOrder.mem_before_iff (h : chain.InOrder) {spot : Spot} {hop : Hop}
    (hhop : chain.hop? spot = some hop) {other : Spot} :
    other ∈ chain.before spot ↔
      (∃ hop, chain.hop? other = some hop) ∧ chain.after? other = some spot := by
  obtain ⟨branch, hbranch, hstep⟩ := hop?_eq_some_iff.mp hhop
  exact ⟨h.after?_of_mem_before hbranch hstep, fun ⟨⟨_, hother⟩, hafter⟩ =>
    h.mem_before_of_after? hother hafter⟩

/-- Every relation but the last one leads on to another. -/
theorem InOrder.eq_last_or_after? (h : chain.InOrder) {spot : Spot} {hop : Hop}
    (hhop : chain.hop? spot = some hop) :
    spot = chain.last ∨ ∃ next hop, chain.after? spot = some next ∧ chain.hop? next = some hop := by
  obtain ⟨branch, hbranch, hstep⟩ := hop?_eq_some_iff.mp hhop
  have hlength := (List.getElem?_eq_some_iff.mp hstep).1
  rw [after?_eq hbranch]
  split
  · rename_i hbefore
    refine .inr ?_
    obtain ⟨step, hnext⟩ : ∃ step, branch.steps[spot.position + 1]? = some step :=
      ⟨_, List.getElem?_eq_getElem (by rw [lastPosition] at hbefore; omega)⟩
    cases step with
    | relation next => exact ⟨_, next, rfl, hop?_eq_some_iff.mpr ⟨_, hbranch, hnext⟩⟩
    | group origin branches => exact absurd ((h.of_at? hbranch).of_group hnext).1 (by omega)
  · rename_i hlast
    obtain ⟨numbers, position⟩ := spot
    split
    · rename_i hnil
      cases List.isEmpty_iff.mp hnil
      cases hbranch
      refine .inl ?_
      simp only [last, lastPosition, Spot.mk.injEq, true_and] at *
      omega
    · rename_i hinside
      obtain ⟨outer, number, rfl⟩ : ∃ outer number, numbers = outer ++ [number] := by
        rcases List.eq_nil_or_concat numbers with rfl | ⟨outer, number, rfl⟩
        · exact absurd rfl hinside
        · exact ⟨outer, number, List.concat_eq_append⟩
      obtain ⟨around, -, -, next, haround, -, -, hnext⟩ := h.around hbranch
      rw [List.dropLast_concat]
      exact .inr ⟨_, next, rfl, hop?_eq_some_iff.mpr ⟨around, haround, hnext⟩⟩

end Chain

end Semijoin
