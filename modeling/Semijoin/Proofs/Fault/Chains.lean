import Semijoin.Proofs.Chain.Climbing
import Semijoin.Proofs.Fault.Reading

/-!
# The faults of chains

A chain is read step by step, then the order of its steps is checked, and finally its joins are
built. The steps keep the places that they were read from, so the faults found later are shown by
the document as well. How deep the joins of a chain nest can be counted in its text.
-/

namespace Semijoin

open Json FaultsAre

variable {document : Json} {place : Pointer} {value : Json}

section Reading

/-- Elements end with the one at the last position. -/
theorem eq_take_concat {α : Type} {values : List α} {position : Nat} {value : α}
    (hlength : values.length = position + 1) (hvalue : values[position]? = some value) :
    values = values.take position ++ [value] := by
  have htake := List.take_add_one (l := values) (i := position)
  rwa [hvalue, ← hlength, List.take_length] at htake

mutual

/-- A fault in reading a chain is shown. -/
theorem Chain.shownIn_readShape (hordered : document.IsOrdered) (place : Pointer) (value : Json)
    (hstands : Part.chain.StandsAt document place value) :
    FaultsAre (Fault.ShownIn document) (Chain.readShape place value) := by
  cases value with
  | array steps =>
    exact bind (Step.shownIn_readAll hordered place steps hstands 0 steps List.drop_zero)
      fun _ _ => pure _
  | null | bool _ | number _ | string _ | object _ =>
    exact hstands.shownIn_throw rfl ⟨hstands, by rintro ⟨_, ⟨⟩⟩⟩

/-- A fault in reading the steps of a chain, from a position on, is shown. -/
theorem Step.shownIn_readAll (hordered : document.IsOrdered) (place : Pointer) (all : List Json)
    (hstands : Part.chain.StandsAt document place (.array all)) (position : Nat)
    (values : List Json) (hvalues : all.drop position = values) :
    FaultsAre (Fault.ShownIn document) (Step.readAll place position values) := by
  cases values with
  | nil => exact pure []
  | cons value rest =>
    obtain ⟨hvalue, hrest⟩ := getElem?_of_drop_eq_cons hvalues
    have hstep : Part.step.StandsAt _ _ _ := hstands.element hvalue rfl
    rw [Step.readAll]
    refine bind (Step.shownIn_read hordered (place.index position) value hstep) fun _ _ => ?_
    exact bind (Step.shownIn_readAll hordered place all hstands (position + 1) rest hrest)
      fun _ _ => pure _

/-- A fault in reading a step is shown. -/
theorem Step.shownIn_read (hordered : document.IsOrdered) (place : Pointer) (value : Json)
    (hstands : Part.step.StandsAt document place value) :
    FaultsAre (Fault.ShownIn document) (Step.read place value) := by
  cases value with
  | object members =>
    rw [Step.read]
    cases hgroup : Step.readGroup? place members with
    | some group =>
      exact Step.shownIn_readGroup? hordered place members hstands members rfl hgroup
    | none =>
      rw [Step.readGroup?_eq, Option.map_eq_none_iff] at hgroup
      exact bind (Hop.shownIn_read hordered (hstands.hop hgroup)) fun _ _ => pure _
  | null | bool _ | number _ | string _ | array _ =>
    exact hstands.shownIn_throw rfl ⟨hstands, by rintro ⟨_, ⟨⟩⟩⟩

/-- A fault in reading the group of a step is shown. It is looked for among the last members. -/
theorem Step.shownIn_readGroup? (hordered : document.IsOrdered) (place : Pointer)
    (all : List (String × Json)) (hstands : Part.step.StandsAt document place (.object all))
    (members : List (String × Json)) (hlookup : all.lookup "group" = members.lookup "group")
    {group : Except Fault Step} (h : Step.readGroup? place members = some group) :
    FaultsAre (Fault.ShownIn document) group := by
  match members with
  | [] => cases h
  | (field, value) :: rest =>
    rw [Step.readGroup?] at h
    split at h
    · rename_i hfield
      cases h
      rw [hfield, List.lookup_cons_self] at hlookup
      exact bind (Chain.shownIn_readBranches hordered (place.key "group") value
        (hstands.member hlookup (by decide))) fun _ _ => pure _
    · rename_i hfield
      rw [List.lookup_cons, beq_false_of_ne (Ne.symm hfield)] at hlookup
      exact Step.shownIn_readGroup? hordered place all hstands rest hlookup h

/-- A fault in reading branches is shown. -/
theorem Chain.shownIn_readBranches (hordered : document.IsOrdered) (place : Pointer) (value : Json)
    (hstands : Part.branches.StandsAt document place value) :
    FaultsAre (Fault.ShownIn document) (Chain.readBranches place value) := by
  cases value with
  | array branches =>
    exact Chain.shownIn_readShapes hordered place branches hstands 0 branches List.drop_zero
  | null | bool _ | number _ | string _ | object _ =>
    exact hstands.shownIn_throw rfl ⟨hstands, by rintro ⟨_, ⟨⟩⟩⟩

/-- A fault in reading branches, from a position on, is shown. -/
theorem Chain.shownIn_readShapes (hordered : document.IsOrdered) (place : Pointer)
    (all : List Json) (hstands : Part.branches.StandsAt document place (.array all))
    (position : Nat) (values : List Json) (hvalues : all.drop position = values) :
    FaultsAre (Fault.ShownIn document) (Chain.readShapes place position values) := by
  cases values with
  | nil => exact pure []
  | cons value rest =>
    obtain ⟨hvalue, hrest⟩ := getElem?_of_drop_eq_cons hvalues
    have hbranch : Part.chain.StandsAt _ _ _ := hstands.element hvalue rfl
    rw [Chain.readShapes]
    refine bind (Chain.shownIn_readShape hordered (place.index position) value hbranch)
      fun _ _ => ?_
    exact bind (Chain.shownIn_readShapes hordered place all hstands (position + 1) rest hrest)
      fun _ _ => pure _

end

end Reading

section Checking

/-- A relation of a chain tells the place that it was read from. -/
theorem Hop.origin_of_read {members : List (String × Json)} {hop : Hop}
    (h : Hop.read members place = .ok hop) : hop.origin = place := by
  unfold Hop.read at h
  split at h
  · cases h
  · obtain ⟨_, -, h⟩ := bind_eq_ok h
    obtain ⟨_, -, h⟩ := bind_eq_ok h
    cases h
    rfl

/-- An endpoint with clauses is read from one that is written with some. -/
theorem Endpoint.Reads.exists_clause {endpoint : Endpoint} (h : Reads value endpoint)
    (hclauses : endpoint.queries ≠ []) : ∃ members clause rest, value = .object members ∧
      members.lookup "queries" = some (.array (clause :: rest)) := by
  obtain ⟨place, hread⟩ := h
  obtain ⟨members, rfl, -, -, -, -, -, -, -, hqueries⟩ := read_eq_ok_iff.mp hread
  cases hlookup : members.lookup "queries" with
  | none =>
    rw [hlookup] at hqueries
    exact absurd (Except.ok.inj hqueries).symm hclauses
  | some queries =>
    rw [hlookup] at hqueries
    cases queries with
    | array items =>
      cases items with
      | nil => exact absurd (Except.ok.inj hqueries).symm hclauses
      | cons clause rest => exact ⟨members, clause, rest, rfl, hlookup⟩
    | null => exact absurd (Except.ok.inj hqueries).symm hclauses
    | _ => cases hqueries

namespace Step

variable {step : Step} (hread : Step.read place value = .ok step)
include hread

/-- A group that is read has branches in its text. -/
theorem isGroup_of_read {origin : Pointer} {branches : List Chain}
    (hgroup : step = .group origin branches) : value.IsGroup ∧ origin = place := by
  subst hgroup
  obtain ⟨members, values, rfl, hlookup, horigin, -⟩ := read_group_iff.mp hread
  exact ⟨⟨members, _, rfl, hlookup⟩, horigin⟩

/-- A group that is refused behind a first step is shown. -/
theorem shownIn_checkLater (hstands : Part.step.StandsAt document place value) {chain : Pointer}
    {position : Nat} (hposition : place = chain.index (position + 1)) :
    FaultsAre (Fault.ShownIn document) step.checkLater := by
  cases step with
  | relation hop => exact pure ()
  | group origin branches =>
    obtain ⟨hgroup, rfl⟩ := isGroup_of_read hread rfl
    exact hstands.shownIn_throw rfl
      ⟨hstands, hgroup, chain, position + 1, hposition, Nat.succ_pos _⟩

/-- A last step that is refused is shown. -/
theorem shownIn_checkLast {chain : Pointer} {before : List Json}
    (hchain : Part.chain.StandsAt document chain (.array (before ++ [value])))
    (hposition : place = chain.index before.length) :
    FaultsAre (Fault.ShownIn document) step.checkLast := by
  have hstands : Part.step.StandsAt document place value :=
    hposition ▸ hchain.element List.getElem?_concat_length rfl
  cases step with
  | relation hop =>
    obtain ⟨members, rfl, hgroup, hhop⟩ := read_relation_iff.mp hread
    obtain ⟨joined, filtered, hrelation, -, hfiltered, -⟩ := Hop.exists_of_read hhop
    rw [checkLast]
    split
    · exact pure ()
    · rename_i hclauses
      have hpair : Part.pair.StandsAt _ _ _ := (hstands.hop hgroup).member hrelation (by decide)
      have hfar : Part.endpoint.StandsAt document ((hop.origin.key "relation").index 1) filtered :=
        Hop.origin_of_read hhop ▸ hpair.element rfl rfl
      have hside : AtRootSide document ((hop.origin.key "relation").index 1) filtered := by
        refine ⟨hfar, chain, before, _, hchain, ?_⟩
        rw [Hop.origin_of_read hhop, hposition]
      refine hfar.shownIn_throw rfl ⟨hside, hfiltered.isEndpoint, hfiltered.exists_clause ?_⟩
      rintro hnil
      exact hclauses (List.isEmpty_iff.mpr hnil)
  | group origin branches =>
    obtain ⟨hgroup, rfl⟩ := isGroup_of_read hread rfl
    exact hstands.shownIn_throw rfl ⟨hstands, hgroup, chain, before, hposition, hchain⟩

end Step

/-- Where and from what a chain was read. -/
def Chain.StandsIn (document : Json) (chain : Chain) : Prop :=
  ∃ place value, Part.chain.StandsAt document place value ∧ readShape place value = .ok chain

/-- The branches of a group stand in the document of the group. -/
theorem Chain.standsIn_of_items {values : List Json} {branches : List Chain}
    (hstands : Part.branches.StandsAt document place (.array values))
    (h : Field.items readShape place 0 values = .ok branches) :
    ∀ branch ∈ branches, branch.StandsIn document := by
  intro branch hbranch
  obtain ⟨position, hposition⟩ := List.getElem?_of_mem hbranch
  obtain ⟨value, hvalue, hread⟩ := Field.getElem?_of_items h hposition
  rw [Nat.zero_add] at hread
  exact ⟨_, value, hstands.element hvalue rfl, hread⟩

mutual

/-- A chain that is refused for the order of its steps is shown. -/
theorem Chain.shownIn_check : (chain : Chain) → chain.StandsIn document →
    FaultsAre (Fault.ShownIn document) chain.check
  | ⟨origin, []⟩, hstands => by
    obtain ⟨place, value, hstands, hread⟩ := hstands
    obtain ⟨values, steps, rfl, hchain, hsteps⟩ := Chain.readShape_eq_ok_iff.mp hread
    cases hchain
    cases Field.eq_nil_of_items hsteps
    exact hstands.shownIn_throw rfl ⟨hstands, rfl⟩
  | ⟨origin, first :: rest⟩, hstands => by
    obtain ⟨place, value, hstands, hread⟩ := hstands
    obtain ⟨values, steps, rfl, hchain, hsteps⟩ := Chain.readShape_eq_ok_iff.mp hread
    cases hchain
    -- A chain may be refused at its first step, at a later one or at its last one.
    have hstep {position : Nat} {step : Step} (h : (first :: rest)[position]? = some step) :
        ∃ value, values[position]? = some value ∧
          Step.read (origin.index position) value = .ok step := by
      obtain ⟨value, hvalue, hread⟩ := Field.getElem?_of_items hsteps h
      rw [Nat.zero_add] at hread
      exact ⟨value, hvalue, hread⟩
    have hlength : values.length = rest.length + 1 := (Field.length_items hsteps).symm
    have hlast : (first :: rest)[rest.length]? = some (rest.getLastD first) := by
      rw [List.getLastD_eq_getLast?, ← List.getLast?_cons, List.getLast?_eq_getElem?]
      rfl
    rw [Chain.check]
    refine bind ?_ fun _ _ => bind (forM fun step hmem => ?_) fun _ _ => ?_
    · obtain ⟨value, hvalue, hread⟩ := hstep List.getElem?_cons_zero
      refine Step.shownIn_checkFirst first (hstands.element hvalue rfl) hread
        fun halone => ⟨origin, rfl, ?_⟩
      cases List.isEmpty_iff.mp halone
      rw [eq_take_concat hlength hvalue] at hstands
      exact hstands
    · obtain ⟨position, hposition⟩ := List.getElem?_of_mem hmem
      obtain ⟨value, hvalue, hread⟩ := hstep (List.getElem?_cons_succ.trans hposition)
      exact Step.shownIn_checkLater hread (hstands.element hvalue rfl) rfl
    · obtain ⟨value, hvalue, hread⟩ := hstep hlast
      rw [eq_take_concat hlength hvalue] at hstands
      refine Step.shownIn_checkLast hread hstands (congrArg origin.index ?_)
      rw [List.length_take, hlength, Nat.min_eq_left (Nat.le_succ _)]

/-- A group that may not be a first step is shown. -/
theorem Step.shownIn_checkFirst {alone : Bool} {place : Pointer} {value : Json} :
    (step : Step) → Part.step.StandsAt document place value → Step.read place value = .ok step →
    (alone = true → ∃ chain : Pointer, place = chain.index 0 ∧
      Part.chain.StandsAt document chain (.array [value])) →
    FaultsAre (Fault.ShownIn document) (step.checkFirst alone)
  | .relation hop, _, _, _ => pure ()
  | .group origin branches, hstands, hread, halone => by
    obtain ⟨members, values, rfl, hlookup, rfl, hbranches⟩ := Step.read_group_iff.mp hread
    rw [Step.checkFirst]
    split
    · rename_i hlast
      exact hstands.shownIn_throw rfl ⟨hstands, ⟨members, _, rfl, hlookup⟩, halone hlast⟩
    · split
      · rename_i hempty
        cases List.isEmpty_iff.mp hempty
        cases Field.eq_nil_of_items hbranches
        exact hstands.shownIn_throw rfl ⟨hstands, members, rfl, hlookup⟩
      · have hgroup : Part.branches.StandsAt _ _ _ := hstands.member hlookup (by decide)
        exact Chain.shownIn_checkAll branches (Chain.standsIn_of_items hgroup hbranches)

/-- A branch that is refused for the order of its steps is shown. -/
theorem Chain.shownIn_checkAll : (branches : List Chain) →
    (∀ branch ∈ branches, branch.StandsIn document) →
    FaultsAre (Fault.ShownIn document) (Chain.checkAll branches)
  | [], _ => pure ()
  | branch :: rest, hall => by
    obtain ⟨hbranch, hrest⟩ := List.forall_mem_cons.mp hall
    exact bind (Chain.shownIn_check branch hbranch) fun _ _ => Chain.shownIn_checkAll rest hrest

end

/-- A fault in reading and checking a chain is shown. -/
theorem Chain.shownIn_read (hordered : document.IsOrdered)
    (hstands : Part.chain.StandsAt document place value) :
    FaultsAre (Fault.ShownIn document) (read place value) :=
  bind (shownIn_readShape hordered place value hstands) fun chain hread =>
    bind (shownIn_check chain ⟨place, value, hstands, hread⟩) fun _ _ => pure _

end Checking

section Climbing

variable {sentinel : String}

/-- The levels of steps are those of the last ones over those of the first. -/
theorem Json.stepsLevels_append (below : Nat) (first last : List Json) :
    stepsLevels below (first ++ last) = stepsLevels (stepsLevels below first) last := by
  induction first generalizing below with
  | nil => rw [List.nil_append, stepsLevels]
  | cons step rest ih => rw [List.cons_append, stepsLevels, ih, stepsLevels]

/-- The group of a step is what stands under its key. -/
theorem Json.groupLevels?_eq (members : List (String × Json)) :
    groupLevels? members = (members.lookup "group").map branchesLevels := by
  induction members with
  | nil => rw [groupLevels?, List.lookup_nil, Option.map_none]
  | cons member rest ih =>
    obtain ⟨field, value⟩ := member
    rw [groupLevels?]
    by_cases hfield : field = "group"
    · rw [if_pos hfield, hfield, List.lookup_cons_self, Option.map_some]
    · rw [if_neg hfield, ih, List.lookup_cons, beq_false_of_ne (Ne.symm hfield)]

/-- A relation adds a level to those below it. -/
theorem Step.stepLevels_of_relation {hop : Hop}
    (hread : Step.read place value = .ok (.relation hop)) (below : Nat) :
    value.stepLevels below = below + 1 := by
  obtain ⟨members, rfl, hgroup, -⟩ := read_relation_iff.mp hread
  rw [stepLevels, groupLevels?_eq, hgroup]
  rfl

/-- Relations add a level each. -/
theorem Step.stepsLevels_of_relations {position : Nat} {values : List Json} {hops : List Hop}
    (h : Field.items Step.read place position values = .ok (hops.map .relation)) (below : Nat) :
    stepsLevels below values = below + hops.length := by
  induction values generalizing position hops below with
  | nil =>
    cases hops with
    | nil => rw [stepsLevels, List.length_nil, Nat.add_zero]
    | cons hop rest => cases h
  | cons value rest ih =>
    obtain ⟨first, hfirst, h⟩ := bind_eq_ok h
    obtain ⟨others, hothers, h⟩ := bind_eq_ok h
    cases hops with
    | nil => cases h
    | cons hop hops =>
      cases h
      rw [stepsLevels, stepLevels_of_relation hfirst, ih hothers, List.length_cons]
      omega

namespace Tier

/-- Every relation that is climbed adds a level. -/
theorem depth_climb {tier tier' : Tier} {hops : List Hop}
    (h : (tier.climb sentinel (hops.map .relation)).result = .ok tier') :
    tier'.depth = tier.depth + hops.length := by
  induction hops generalizing tier with
  | nil =>
    cases h
    rfl
  | cons hop rest ih =>
    rw [List.map_cons, result_climb_relation] at h
    split at h
    · cases h
    · rw [ih h]
      simp only [List.length_cons]
      omega

/-- If joins nest too deep where relations are climbed, the relation that is one too many is
shown. -/
theorem shownIn_climb {steps : List Json}
    (hstands : Part.chain.StandsAt document place (.array steps))
    (hchain : IsChain (.array steps)) {position : Nat} {values : List Json}
    (hvalues : steps.drop position = values) {hops : List Hop}
    (hread : Field.items Step.read place position values = .ok (hops.map .relation)) {tier : Tier}
    (hdepth : tier.depth = stepsLevels 0 (steps.take position)) :
    FaultsAre (Fault.ShownIn document) (tier.climb sentinel (hops.map .relation)).result := by
  -- The tier is always as deep as the steps in front of the position nest.
  induction values generalizing position hops tier with
  | nil =>
    cases hops with
    | nil => exact ok tier
    | cons hop rest => cases hread
  | cons value rest ih =>
    obtain ⟨hvalue, hrest⟩ := getElem?_of_drop_eq_cons hvalues
    obtain ⟨first, hfirst, hread⟩ := bind_eq_ok hread
    obtain ⟨others, hothers, hread⟩ := bind_eq_ok hread
    cases hops with
    | nil => exact ok tier
    | cons hop hops =>
      cases hread
      rw [List.map_cons, result_climb_relation]
      split
      · rename_i hdeep
        obtain ⟨members, -, -, hhop⟩ := Step.read_relation_iff.mp hfirst
        obtain ⟨joined, filtered, hstep, -⟩ := Step.isStep_of_read hfirst
        have horigin := Hop.origin_of_read hhop
        have hdeepest : Part.step.StandsAt document hop.origin value :=
          horigin ▸ hstands.element hvalue rfl
        refine hdeepest.shownIn_throw rfl (.inl ?_)
        exact ⟨place, steps, position, joined, filtered, horigin, hstands, hvalue, hchain, hstep,
          hdepth ▸ hdeep⟩
      · refine ih hrest hothers ?_
        rw [List.take_add_one, hvalue, stepsLevels_append, ← hdepth]
        exact (Step.stepLevels_of_relation hfirst tier.depth).symm

end Tier

namespace Chain

/-- Branches nest as deep as the deepest of those that they are read from. -/
theorem depth_tiers {branches : List Chain}
    (hall : ∀ branch ∈ branches, ∀ {place : Pointer} {value : Json},
      readShape place value = .ok branch → ∀ {tier : Tier},
      (branch.tier sentinel).result = .ok tier → tier.depth = value.chainLevels) {position : Nat}
    {values : List Json}
    (hread : Field.items readShape place position values = .ok branches) {tier : Tier}
    (htiers : (Chain.tiers sentinel branches).result = .ok tier) :
    tier.depth = deepestLevels values := by
  induction values generalizing position branches tier with
  | nil =>
    cases hread
    cases htiers
    rfl
  | cons value rest ih =>
    obtain ⟨first, hfirst, hread⟩ := bind_eq_ok hread
    obtain ⟨others, hothers, hread⟩ := bind_eq_ok hread
    cases hread
    rw [result_tiers_cons] at htiers
    obtain ⟨one, hone, htiers⟩ := bind_eq_ok htiers
    obtain ⟨more, hmore, htiers⟩ := bind_eq_ok htiers
    cases htiers
    obtain ⟨hbranch, hrest⟩ := List.forall_mem_cons.mp hall
    rw [deepestLevels, hbranch hfirst hone, ih hrest hothers hmore]

/-- The joins of a chain nest as deep as can be counted in what it is read from. -/
theorem InOrder.depth_tier {chain : Chain} (h : chain.InOrder)
    (hread : readShape place value = .ok chain) {tier : Tier}
    (htier : (chain.tier sentinel).result = .ok tier) : tier.depth = value.chainLevels := by
  induction h generalizing place value tier with
  | @relations origin hops hne hlast =>
    obtain ⟨values, steps, rfl, hchain, hsteps⟩ := readShape_eq_ok_iff.mp hread
    cases hchain
    obtain ⟨hop, rest, rfl⟩ := List.exists_cons_of_ne_nil hne
    rw [List.map_cons, result_tier_cons, Step.result_tier_relation] at htier
    rw [chainLevels, Step.stepsLevels_of_relations hsteps, Tier.depth_climb htier]
    simp only [List.length_cons]
    omega
  | @grouped origin group branches hops hne hlast hbranches hall ih =>
    obtain ⟨values, steps, rfl, hchain, hsteps⟩ := readShape_eq_ok_iff.mp hread
    cases hchain
    cases values with
    | nil => cases hsteps
    | cons value rest =>
      obtain ⟨first, hfirst, hsteps⟩ := bind_eq_ok hsteps
      obtain ⟨others, hothers, hsteps⟩ := bind_eq_ok hsteps
      cases hsteps
      obtain ⟨members, inner, rfl, hgroup, -, hitems⟩ := Step.read_group_iff.mp hfirst
      rw [result_tier_cons, Step.result_tier_group] at htier
      obtain ⟨tiers, htiers, hclimb⟩ := bind_eq_ok htier
      have hdeepest := depth_tiers (fun branch hbranch => @ih branch hbranch) hitems htiers
      rw [chainLevels, stepsLevels, Step.stepsLevels_of_relations hothers, stepLevels,
        groupLevels?_eq, hgroup, Tier.depth_climb hclimb, hdeepest]
      rfl

/-- If joins nest too deep in one of some branches, this is shown. -/
theorem shownIn_tiers {branches : List Chain}
    (hall : ∀ branch ∈ branches,
      FaultsAre (Fault.ShownIn document) (branch.tier sentinel).result) :
    FaultsAre (Fault.ShownIn document) (Chain.tiers sentinel branches).result := by
  induction branches with
  | nil => exact ok _
  | cons branch rest ih =>
    obtain ⟨hbranch, hrest⟩ := List.forall_mem_cons.mp hall
    rw [result_tiers_cons]
    exact bind hbranch fun _ _ => bind (ih hrest) fun _ _ => ok _

/-- If the joins of a chain nest too deep, the relation that is one too many is shown. -/
theorem InOrder.shownIn_tier {chain : Chain} (h : chain.InOrder)
    (hstands : chain.StandsIn document) :
    FaultsAre (Fault.ShownIn document) (chain.tier sentinel).result := by
  induction h with
  | @relations origin hops hne hlast =>
    obtain ⟨place, value, hstands, hread⟩ := hstands
    have hchain := (InOrder.relations hne hlast).isChain hread
    obtain ⟨values, steps, rfl, heq, hsteps⟩ := readShape_eq_ok_iff.mp hread
    cases heq
    obtain ⟨hop, rest, rfl⟩ := List.exists_cons_of_ne_nil hne
    cases values with
    | nil => cases hsteps
    | cons value values =>
      obtain ⟨first, hfirst, hsteps⟩ := bind_eq_ok hsteps
      obtain ⟨others, hothers, hsteps⟩ := bind_eq_ok hsteps
      cases hsteps
      rw [List.map_cons, result_tier_cons, Step.result_tier_relation]
      refine Tier.shownIn_climb hstands hchain List.drop_one hothers ?_
      exact (Step.stepLevels_of_relation hfirst 0).symm
  | @grouped origin group branches hops hne hlast hbranches hall ih =>
    obtain ⟨place, value, hstands, hread⟩ := hstands
    have hchain := (InOrder.grouped hne hlast hbranches hall).isChain hread
    obtain ⟨values, steps, rfl, heq, hsteps⟩ := readShape_eq_ok_iff.mp hread
    cases heq
    cases values with
    | nil => cases hsteps
    | cons value values =>
      obtain ⟨first, hfirst, hsteps⟩ := bind_eq_ok hsteps
      obtain ⟨others, hothers, hsteps⟩ := bind_eq_ok hsteps
      cases hsteps
      obtain ⟨members, inner, rfl, hgroup, rfl, hitems⟩ := Step.read_group_iff.mp hfirst
      have hstep : Part.step.StandsAt _ _ _ := hstands.element List.getElem?_cons_zero rfl
      have hinner : Part.branches.StandsAt _ _ _ := hstep.member hgroup (by decide)
      rw [result_tier_cons, Step.result_tier_group]
      refine bind (shownIn_tiers fun branch hbranch => ?_) fun tier htier => ?_
      · exact ih branch hbranch (standsIn_of_items hinner hitems branch hbranch)
      · refine Tier.shownIn_climb hstands hchain List.drop_one hothers ?_
        have hdeepest := depth_tiers (fun branch hbranch => (hall branch hbranch).depth_tier)
          hitems htier
        rw [hdeepest, List.take_succ_cons, List.take_zero, stepsLevels, stepsLevels, stepLevels,
          groupLevels?_eq, hgroup]
        rfl

/-- A fault in compiling a chain that has been read is shown. -/
theorem shownIn_compile {chain : Chain} (hstands : Part.chain.StandsAt document place value)
    (hread : read place value = .ok chain) :
    FaultsAre (Fault.ShownIn document) (chain.compile sentinel).result := by
  obtain ⟨shape, hshape, hread⟩ := bind_eq_ok hread
  obtain ⟨_, hcheck, hread⟩ := bind_eq_ok hread
  cases hread
  rw [compile, Traced.result_bind, result_joins, hcheck]
  have horder := check_eq_ok_iff.mp hcheck
  have htier : FaultsAre (Fault.ShownIn document) (chain.tier sentinel).result :=
    horder.shownIn_tier ⟨place, value, hstands, hshape⟩
  exact bind (bind (ok _) fun _ _ => bind htier fun _ _ => ok _) fun _ _ => ok _

end Chain

end Climbing

end Semijoin
