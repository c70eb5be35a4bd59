import Semijoin.Proofs.Chain.Order
import Semijoin.Proofs.Graph.Passing
import Semijoin.Proofs.Specification.Grammar

/-!
# Which specifications are read

Relations, graphs and chains are read exactly where they have the form that the grammar tells. For
a chain this takes the check of the order of its steps, which is made once all of them are read.
-/

namespace Semijoin

namespace Edge

variable {place : Pointer} {value first second : Json} {edge : Edge}

/-- A relation is read from one that is written, and its endpoints from those of the latter. -/
theorem exists_of_read (h : Edge.read place value = .ok edge) :
    ∃ first second, Json.IsRelation first second value ∧
      Endpoint.Reads first edge.first ∧ Endpoint.Reads second edge.second := by
  unfold Edge.read at h
  split at h
  · obtain ⟨pair, hpair, h⟩ := bind_eq_ok h
    cases h
    obtain ⟨first, second, heq, hfirst, hsecond⟩ := Endpoint.exists_of_readPair hpair
    cases heq
    exact ⟨first, second, .pair hfirst.isEndpoint hsecond.isEndpoint, hfirst, hsecond⟩
  · split at h
    · cases h
    · rename_i members endpoints hrelation
      obtain ⟨negate, hnegate, h⟩ := bind_eq_ok h
      obtain ⟨pair, hpair, h⟩ := bind_eq_ok h
      cases h
      obtain ⟨first, second, rfl, hfirst, hsecond⟩ := Endpoint.exists_of_readPair hpair
      exact ⟨first, second, .object hrelation hfirst.isEndpoint hsecond.isEndpoint
        (Field.exists_flag_iff.mp ⟨_, hnegate⟩), hfirst, hsecond⟩
  · cases h

/-- A relation that is written is read, and its endpoints are. -/
theorem exists_read (h : Json.IsRelation first second value) (place : Pointer) :
    ∃ edge, Edge.read place value = .ok edge ∧
      Endpoint.Reads first edge.first ∧ Endpoint.Reads second edge.second := by
  cases h with
  | pair hfirst hsecond =>
    obtain ⟨pair, hpair, hreads⟩ := Endpoint.exists_readPair hfirst hsecond place
    refine ⟨⟨pair.1, pair.2, false, place⟩, ?_, hreads⟩
    rw [Edge.read, hpair]
    rfl
  | @object members hrelation hfirst hsecond hnegate =>
    obtain ⟨negate, hnegate⟩ := (@Field.exists_flag_iff members "negate" place).mpr hnegate
    obtain ⟨pair, hpair, hreads⟩ :=
      Endpoint.exists_readPair hfirst hsecond (place.key "relation")
    refine ⟨⟨pair.1, pair.2, negate, place⟩, ?_, hreads⟩
    simp only [Edge.read, hrelation, hnegate]
    change (Endpoint.readPair (place.key "relation") (.array [first, second]) >>= _) = _
    rw [hpair]
    rfl

/-- A relation is a loop exactly when its text is. -/
theorem loop?_eq_none_iff (hfirst : Endpoint.Reads first edge.first)
    (hsecond : Endpoint.Reads second edge.second) :
    edge.loop? = none ↔ ¬ Json.IsLoop first second := by
  rw [loop?, hfirst.index?, hsecond.index?, Json.IsLoop]
  split
  · rename_i hsame
    rw [← hsame]
    cases first.firstIndex? <;> simp
  · rename_i hother
    refine iff_of_true rfl ?_
    rintro ⟨index, hindex, hindex'⟩
    exact hother (hindex.trans hindex'.symm)

end Edge

namespace Graph

variable {members : List (String × Json)} {place : Pointer}

/-- A focus is read exactly where a text stands. -/
theorem exists_readFocus_iff :
    (∃ focus, readFocus members place = .ok focus) ↔
      ∃ focus, members.lookup "focus" = some (.string focus) := by
  unfold readFocus Field.find?
  cases members.lookup "focus" with
  | none => exact iff_of_false nofun nofun
  | some value =>
    cases value with
    | string focus => exact iff_of_true ⟨focus, rfl⟩ ⟨focus, rfl⟩
    | _ => exact iff_of_false nofun nofun

/-- Relations are read from the elements of an array. -/
theorem readRelations_eq_ok_iff {relations : List Edge} :
    readRelations members place = .ok relations ↔
      ∃ values, members.lookup "relations" = some (.array values) ∧
        Field.items Edge.read (place.key "relations") 0 values = .ok relations := by
  unfold readRelations Field.find?
  cases members.lookup "relations" with
  | none => exact iff_of_false nofun nofun
  | some value =>
    cases value with
    | array values =>
      exact ⟨fun h => ⟨values, rfl, h⟩, by rintro ⟨_, ⟨⟩, h⟩; exact h⟩
    | _ => exact iff_of_false nofun nofun

/-- Clauses by index are read exactly where they are optional. -/
theorem exists_readQueries_iff :
    (∃ queries, readQueries members place = .ok queries) ↔
      Field.Optional Json.IsClausesByIndex members "queries" := by
  rw [Field.optional_iff, readQueries]
  cases Field.find? members "queries" with
  | none => exact iff_of_true ⟨_, rfl⟩ nofun
  | some value =>
    simp only [Option.some.injEq, forall_eq']
    cases value with
    | object byIndex =>
      have hentry (member : String × Json) :
          (∃ entry, (do
            return (member.1, ← Clause.readAll ((place.key "queries").key member.1) member.2) :
              Except Fault (String × List Clause)) = .ok entry) ↔
          member.2 = .null ∨ member.2.IsClauses :=
        (exists_bind_iff_of_ok fun _ => ⟨_, rfl⟩).trans Clause.exists_readAll_iff
      refine (exists_mapM_iff hentry).trans ?_
      exact ⟨fun hall => ⟨byIndex, rfl, hall⟩, by rintro ⟨_, ⟨⟩, hall⟩; exact hall⟩
    | _ => exact iff_of_false nofun nofun

/-- A graph is read member by member, and then checked. -/
theorem read_eq_ok_iff {value : Json} {graph : Graph} :
    read place value = .ok graph ↔ ∃ members, value = .object members ∧
      readFocus members place = .ok graph.focus ∧
      readRelations members place = .ok graph.relations ∧
      readQueries members place = .ok graph.queries ∧ graph.check = .ok () := by
  constructor
  · intro h
    unfold read at h
    split at h
    · rename_i members
      obtain ⟨focus, hfocus, h⟩ := bind_eq_ok h
      obtain ⟨relations, hrelations, h⟩ := bind_eq_ok h
      obtain ⟨queries, hqueries, h⟩ := bind_eq_ok h
      obtain ⟨_, hcheck, h⟩ := bind_eq_ok h
      cases h
      exact ⟨members, rfl, hfocus, hrelations, hqueries, hcheck⟩
    · cases h
  · rintro ⟨members, rfl, hfocus, hrelations, hqueries, hcheck⟩
    simp only [read, hfocus, hrelations, hqueries]
    change graph.check >>= _ = _
    rw [hcheck]
    rfl

/-- A graph is read exactly from an object with its members. -/
theorem exists_read_iff {value : Json} :
    (∃ graph, read place value = .ok graph) ↔ value.IsGraph := by
  constructor
  · rintro ⟨graph, h⟩
    obtain ⟨members, rfl, hfocus, hedges, hqueries, hcheck⟩ := read_eq_ok_iff.mp h
    obtain ⟨focus, hfocus⟩ := exists_readFocus_iff.mp ⟨_, hfocus⟩
    obtain ⟨relations, hrelations, hitems⟩ := readRelations_eq_ok_iff.mp hedges
    refine .object hfocus hrelations (fun relation hrelation => ?_)
      (exists_readQueries_iff.mp ⟨_, hqueries⟩)
    obtain ⟨_, edge, hedge, hloop⟩ :=
      Field.exists_of_items hitems (check_eq_ok_iff.mp hcheck) relation hrelation
    obtain ⟨first, second, hwritten, hfirst, hsecond⟩ := Edge.exists_of_read hedge
    exact ⟨first, second, hwritten, (Edge.loop?_eq_none_iff hfirst hsecond).mp hloop⟩
  · rintro ⟨hfocus, hrelations, hall, hqueries⟩
    rename_i members focus relations
    obtain ⟨edges, hitems, hedges⟩ : ∃ edges,
        Field.items Edge.read (place.key "relations") 0 relations = .ok edges ∧
          ∀ edge ∈ edges, edge.loop? = none := by
      refine Field.exists_items fun relation hrelation place => ?_
      obtain ⟨first, second, hwritten, hloop⟩ := hall relation hrelation
      obtain ⟨edge, hedge, hfirst, hsecond⟩ := Edge.exists_read hwritten place
      exact ⟨edge, hedge, (Edge.loop?_eq_none_iff hfirst hsecond).mpr hloop⟩
    obtain ⟨focus', hfocus⟩ := (@exists_readFocus_iff members place).mpr ⟨focus, hfocus⟩
    obtain ⟨queries, hqueries⟩ := (@exists_readQueries_iff members place).mpr hqueries
    have hread := readRelations_eq_ok_iff.mpr ⟨relations, hrelations, hitems⟩
    exact ⟨⟨focus', edges, queries⟩,
      read_eq_ok_iff.mpr ⟨members, rfl, hfocus, hread, hqueries, check_eq_ok_iff.mpr hedges⟩⟩

end Graph

namespace Hop

variable {members : List (String × Json)} {place : Pointer} {joined filtered : Json}

/-- A relation is read from a pair of endpoints. -/
theorem exists_of_read {hop : Hop} (h : Hop.read members place = .ok hop) :
    ∃ joined filtered, members.lookup "relation" = some (.array [joined, filtered]) ∧
      Endpoint.Reads joined hop.joined ∧ Endpoint.Reads filtered hop.filtered ∧
      Field.Optional Json.IsFlag members "negate" := by
  unfold Hop.read at h
  split at h
  · cases h
  · rename_i endpoints hrelation
    obtain ⟨pair, hpair, h⟩ := bind_eq_ok h
    obtain ⟨negate, hnegate, h⟩ := bind_eq_ok h
    cases h
    obtain ⟨joined, filtered, rfl, hjoined, hfiltered⟩ := Endpoint.exists_of_readPair hpair
    exact ⟨joined, filtered, hrelation, hjoined, hfiltered, Field.exists_flag_iff.mp ⟨_, hnegate⟩⟩

/-- A pair of endpoints is read as a relation. -/
theorem exists_read (hrelation : members.lookup "relation" = some (.array [joined, filtered]))
    (hjoined : joined.IsEndpoint) (hfiltered : filtered.IsEndpoint)
    (hnegate : Field.Optional Json.IsFlag members "negate") (place : Pointer) :
    ∃ hop, Hop.read members place = .ok hop ∧ Endpoint.Reads filtered hop.filtered := by
  obtain ⟨negate, hnegate⟩ := (@Field.exists_flag_iff members "negate" place).mpr hnegate
  obtain ⟨pair, hpair, -, hreads⟩ :=
    Endpoint.exists_readPair hjoined hfiltered (place.key "relation")
  refine ⟨⟨pair.1, pair.2, negate, place⟩, ?_, hreads⟩
  simp only [Hop.read, hrelation, hpair, hnegate]
  rfl

end Hop

/-- The group of a step is what stands under its key. -/
theorem Step.readGroup?_eq (place : Pointer) (members : List (String × Json)) :
    Step.readGroup? place members = (members.lookup "group").map fun value => do
      return .group place (← Chain.readBranches (place.key "group") value) := by
  induction members with
  | nil => rw [Step.readGroup?, List.lookup_nil, Option.map_none]
  | cons member rest ih =>
    obtain ⟨field, value⟩ := member
    rw [Step.readGroup?]
    by_cases hfield : field = "group"
    · rw [if_pos hfield, hfield, List.lookup_cons_self]
      rfl
    · rw [if_neg hfield, ih, List.lookup_cons, beq_false_of_ne (Ne.symm hfield)]

/-- Steps are read as the elements of an array are. -/
theorem Step.readAll_eq_items (place : Pointer) (position : Nat) (values : List Json) :
    Step.readAll place position values = Field.items Step.read place position values := by
  induction values generalizing position with
  | nil => rw [Step.readAll, Field.items]
  | cons value rest ih => rw [Step.readAll, Field.items, ih]

/-- Branches are read as the elements of an array are. -/
theorem Chain.readShapes_eq_items (place : Pointer) (position : Nat) (values : List Json) :
    Chain.readShapes place position values = Field.items Chain.readShape place position values := by
  induction values generalizing position with
  | nil => rw [Chain.readShapes, Field.items]
  | cons value rest ih => rw [Chain.readShapes, Field.items, ih]

namespace Step

variable {place : Pointer} {value : Json}

/-- A step that is a relation is read from an object without a group. -/
theorem read_relation_iff {hop : Hop} :
    Step.read place value = .ok (.relation hop) ↔ ∃ members, value = .object members ∧
      members.lookup "group" = none ∧ Hop.read members place = .ok hop := by
  constructor
  · intro h
    cases value with
    | object members =>
      rw [Step.read, readGroup?_eq] at h
      cases hgroup : members.lookup "group" with
      | none =>
        rw [hgroup] at h
        obtain ⟨found, hfound, h⟩ := bind_eq_ok h
        cases h
        exact ⟨members, rfl, hgroup, hfound⟩
      | some branches =>
        rw [hgroup] at h
        obtain ⟨_, -, h⟩ := bind_eq_ok h
        cases h
    | _ => cases h
  · rintro ⟨members, rfl, hgroup, hhop⟩
    rw [Step.read, readGroup?_eq, hgroup]
    change Hop.read members place >>= _ = _
    rw [hhop]
    rfl

/-- A step that is a group is read from an object with branches. -/
theorem read_group_iff {origin : Pointer} {branches : List Chain} :
    Step.read place value = .ok (.group origin branches) ↔ ∃ members values,
      value = .object members ∧ members.lookup "group" = some (.array values) ∧ origin = place ∧
      Field.items Chain.readShape (place.key "group") 0 values = .ok branches := by
  constructor
  · intro h
    cases value with
    | object members =>
      rw [Step.read, readGroup?_eq] at h
      cases hgroup : members.lookup "group" with
      | none =>
        rw [hgroup] at h
        obtain ⟨_, -, h⟩ := bind_eq_ok h
        cases h
      | some group =>
        rw [hgroup] at h
        obtain ⟨found, hfound, h⟩ := bind_eq_ok h
        cases h
        cases group with
        | array values =>
          rw [Chain.readBranches, Chain.readShapes_eq_items] at hfound
          exact ⟨members, values, rfl, hgroup, rfl, hfound⟩
        | _ => cases hfound
    | _ => cases h
  · rintro ⟨members, values, rfl, hgroup, rfl, hbranches⟩
    rw [Step.read, readGroup?_eq, hgroup]
    change Chain.readBranches (origin.key "group") (.array values) >>= _ = _
    rw [Chain.readBranches, Chain.readShapes_eq_items, hbranches]
    rfl

/-- A relation is read from a step of this form. -/
theorem isStep_of_read {hop : Hop} (h : Step.read place value = .ok (.relation hop)) :
    ∃ joined filtered, Json.IsStep joined filtered value ∧
      Endpoint.Reads filtered hop.filtered := by
  obtain ⟨members, rfl, hgroup, hhop⟩ := read_relation_iff.mp h
  obtain ⟨joined, filtered, hrelation, hjoined, hfiltered, hnegate⟩ := Hop.exists_of_read hhop
  exact ⟨joined, filtered,
    .object hgroup hrelation hjoined.isEndpoint hfiltered.isEndpoint hnegate, hfiltered⟩

/-- Relations, without clauses at the far end of the last one, are read from steps of this form. -/
theorem areSteps_of_items {position : Nat} {values : List Json} {hops : List Hop} (hne : hops ≠ [])
    (h : Field.items Step.read place position values = .ok (hops.map .relation))
    (hlast : (hops.getLast hne).filtered.queries = []) : Json.AreSteps values := by
  induction values generalizing position hops with
  | nil =>
    cases hops with
    | nil => exact absurd rfl hne
    | cons hop rest => cases h
  | cons value rest ih =>
    obtain ⟨first, hfirst, h⟩ := bind_eq_ok h
    obtain ⟨others, hothers, h⟩ := bind_eq_ok h
    obtain ⟨hop, hops, rfl⟩ := List.exists_cons_of_ne_nil hne
    cases h
    obtain ⟨joined, filtered, hstep, hfiltered⟩ := isStep_of_read hfirst
    cases hops with
    | nil =>
      cases Field.eq_nil_of_items hothers
      exact .last hstep (hfiltered.queries_eq_nil_iff.mp hlast)
    | cons next others =>
      rw [List.getLast_cons (List.cons_ne_nil _ _)] at hlast
      exact .cons hstep (ih (List.cons_ne_nil _ _) hothers hlast)

/-- A step of this form is read as a relation. -/
theorem exists_read_of_isStep {joined filtered : Json} (h : Json.IsStep joined filtered value)
    (place : Pointer) : ∃ hop, Step.read place value = .ok (.relation hop) ∧
      Endpoint.Reads filtered hop.filtered := by
  cases h with
  | @object members hgroup hrelation hjoined hfiltered hnegate =>
    obtain ⟨hop, hhop, hreads⟩ := Hop.exists_read hrelation hjoined hfiltered hnegate place
    exact ⟨hop, read_relation_iff.mpr ⟨members, rfl, hgroup, hhop⟩, hreads⟩

/-- Steps of this form are read as relations, without clauses at the far end of the last one. -/
theorem exists_items_of_areSteps {values : List Json} (h : Json.AreSteps values) (place : Pointer)
    (position : Nat) : ∃ (hops : List Hop) (hne : hops ≠ []),
      Field.items Step.read place position values = .ok (hops.map .relation) ∧
      (hops.getLast hne).filtered.queries = [] := by
  induction h generalizing position with
  | last hstep hclauses =>
    obtain ⟨hop, hhop, hreads⟩ := exists_read_of_isStep hstep (place.index position)
    refine ⟨[hop], List.cons_ne_nil _ _, ?_, hreads.queries_eq_nil_iff.mpr hclauses⟩
    rw [Field.items, hhop]
    rfl
  | cons hstep hrest ih =>
    obtain ⟨hop, hhop, -⟩ := exists_read_of_isStep hstep (place.index position)
    obtain ⟨hops, hne, hothers, hlast⟩ := ih (position + 1)
    refine ⟨hop :: hops, List.cons_ne_nil _ _, ?_, ?_⟩
    · rw [Field.items, hhop]
      change (Field.items Step.read place (position + 1) _ >>= _) = _
      rw [hothers]
      rfl
    · rwa [List.getLast_cons hne]

end Step

namespace Chain

/-- A chain without its check is read from an array of steps. -/
theorem readShape_eq_ok_iff {place : Pointer} {value : Json} {chain : Chain} :
    readShape place value = .ok chain ↔ ∃ values steps, value = .array values ∧
      chain = ⟨place, steps⟩ ∧ Field.items Step.read place 0 values = .ok steps := by
  constructor
  · intro h
    cases value with
    | array values =>
      rw [readShape, Step.readAll_eq_items] at h
      obtain ⟨steps, hsteps, h⟩ := bind_eq_ok h
      cases h
      exact ⟨values, steps, rfl, rfl, hsteps⟩
    | _ => cases h
  · rintro ⟨values, steps, rfl, rfl, hsteps⟩
    rw [readShape, Step.readAll_eq_items, hsteps]
    rfl

/-- A chain in order is read from one that is written. -/
theorem InOrder.isChain {chain : Chain} (h : chain.InOrder) {place : Pointer} {value : Json}
    (hread : readShape place value = .ok chain) : value.IsChain := by
  induction h generalizing place value with
  | relations hne hlast =>
    obtain ⟨values, steps, rfl, heq, hsteps⟩ := readShape_eq_ok_iff.mp hread
    cases heq
    exact .steps (Step.areSteps_of_items hne hsteps hlast)
  | @grouped _ _ branches hops hne hlast hbranches hall ih =>
    obtain ⟨values, steps, rfl, heq, hsteps⟩ := readShape_eq_ok_iff.mp hread
    cases heq
    cases values with
    | nil => cases hsteps
    | cons value rest =>
      obtain ⟨first, hfirst, hsteps⟩ := bind_eq_ok hsteps
      obtain ⟨others, hothers, hsteps⟩ := bind_eq_ok hsteps
      cases hsteps
      obtain ⟨members, inner, rfl, hgroup, -, hitems⟩ := Step.read_group_iff.mp hfirst
      refine .grouped hgroup ?_ (fun branch hbranch => ?_)
        (Step.areSteps_of_items hne hothers hlast)
      · rintro rfl
        cases hitems
        exact hbranches rfl
      · obtain ⟨place, chain, hchain, hwritten⟩ :=
          Field.exists_of_items hitems (fun chain hchain => @ih chain hchain) branch hbranch
        exact hwritten hchain

/-- A chain that is written is read as one in order. -/
theorem exists_readShape {value : Json} (h : value.IsChain) (place : Pointer) :
    ∃ chain, readShape place value = .ok chain ∧ chain.InOrder := by
  induction h generalizing place with
  | steps hsteps =>
    obtain ⟨hops, hne, hitems, hlast⟩ := Step.exists_items_of_areSteps hsteps place 0
    exact ⟨_, readShape_eq_ok_iff.mpr ⟨_, _, rfl, rfl, hitems⟩, .relations hne hlast⟩
  | @grouped members values rest hgroup hvalues hall hrest ih =>
    obtain ⟨branches, hbranches, horder⟩ :
        ∃ branches, Field.items readShape ((place.index 0).key "group") 0 values = .ok branches ∧
          ∀ branch ∈ branches, branch.InOrder := Field.exists_items ih
    obtain ⟨hops, hne, hitems, hlast⟩ := Step.exists_items_of_areSteps hrest place 1
    have hfirst := Step.read_group_iff.mpr ⟨members, values, rfl, hgroup, rfl, hbranches⟩
    refine ⟨⟨place, .group (place.index 0) branches :: hops.map .relation⟩,
      readShape_eq_ok_iff.mpr ⟨_, _, rfl, rfl, ?_⟩, .grouped hne hlast ?_ horder⟩
    · rw [Field.items, hfirst]
      change (Field.items Step.read place 1 rest >>= _) = _
      rw [hitems]
      rfl
    · rintro rfl
      exact hvalues (Field.eq_nil_of_items hbranches)

/-- A chain is read exactly from one that is written. -/
theorem exists_read_iff {place : Pointer} {value : Json} :
    (∃ chain, read place value = .ok chain) ↔ value.IsChain := by
  constructor
  · rintro ⟨chain, h⟩
    obtain ⟨shape, hshape, h⟩ := bind_eq_ok h
    obtain ⟨_, hcheck, h⟩ := bind_eq_ok h
    exact (check_eq_ok_iff.mp hcheck).isChain hshape
  · intro h
    obtain ⟨chain, hshape, horder⟩ := exists_readShape h place
    refine ⟨chain, ?_⟩
    rw [read, hshape]
    change chain.check >>= _ = _
    rw [horder.check]
    rfl

end Chain

/-- **Exactly the specifications of the grammar are read.** Whatever value stands under a label, and
wherever it stands, it is read as a specification if and only if it has the form that belongs to the
label. -/
theorem Specification.exists_read_iff_form (label : Label) (place : Pointer) (value : Json) :
    (∃ specification, Specification.read label place value = .ok specification) ↔
      label.Form value := by
  cases label with
  | joinSet => exact (exists_bind_iff_of_ok fun _ => ⟨_, rfl⟩).trans Graph.exists_read_iff
  | joinSequence => exact (exists_bind_iff_of_ok fun _ => ⟨_, rfl⟩).trans Chain.exists_read_iff

end Semijoin
