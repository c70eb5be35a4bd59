import Semijoin.Proofs.Stored.Loosening
import Semijoin.Stored.Specification

/-!
# Reading stored specifications

Graphs and chains are read from all loosened forms of their stored values, chains by recursion on
their steps and branches. Nothing is asked of a specification: it may be one that no document would
be read as. Main statement: what is read is the specification that was stored, so it is checked and
compiled with the same results.
-/

namespace Semijoin

open Form

/-- The members of a relation under a name are read from its loosened form. -/
theorem relation_of_loosens {name : String} {first second : Endpoint} {negate : Bool}
    {origin : Pointer} {old : List (String × Json)} {value : Json}
    (h : Loosens (Form.relation name) (.object old) value)
    (hpair : old.lookup name = some (.array [first.toStored, second.toStored]))
    (hnegate : old.lookup "negate" = some (.bool negate))
    (horigin : old.lookup "origin" = some origin.toStored)
    (hname : ∀ stored, (name, .array stored) ∉ Stored.defaults) :
    ∃ members, (Form.relation name).members? value = some members ∧
      Stored.required? members name (Stored.pair? Endpoint.ofStored?) = some (first, second) ∧
      Stored.optional? members "negate" false Stored.flag? = some negate ∧
      Stored.optional? members "origin" Pointer.root Pointer.ofStored? = some origin := by
  obtain ⟨members, hvalue, hkeeps⟩ := Loosens.exists_members? (Form.relation name) rfl h
  refine ⟨members, hvalue, ?_, ?_, ?_⟩
  · refine Loosens.required?_eq_some (hkeeps name (.list Form.endpoint) _ (by simp) hpair)
      (hname _) fun changed hchanged => ?_
    exact Loosens.pair?_eq_some hchanged fun endpoint new => Endpoint.ofStored?_of_loosens
  · refine Loosens.optional?_eq_some (hkeeps "negate" .value _ (by simp) hnegate)
      (fun hdefault => ?_) fun changed hchanged => ?_
    · simpa [Stored.defaults] using hdefault
    · cases hchanged
      rfl
  · exact Pointer.origin_eq_some (hkeeps "origin" Form.pointer _ (by simp) horigin)

/-- The stored form of a relation under a name is one of its loosened forms. -/
theorem relation_loosens {name : String} {first second : Endpoint} {origin : Pointer}
    {old : List (String × Json)}
    (hpair : old.lookup name = some (.array [first.toStored, second.toStored]))
    (horigin : old.lookup "origin" = some origin.toStored) :
    Loosens (Form.relation name) (.object old) (.object old) := by
  refine Loosens.fields_refl fun key form stored hknown hstored => ?_
  simp only [List.mem_cons, Prod.mk.injEq, List.not_mem_nil, or_false] at hknown
  rcases hknown with ⟨rfl, rfl⟩ | ⟨rfl, rfl⟩ | ⟨rfl, rfl⟩
  · cases hpair.symm.trans hstored
    refine Loosens.list_refl fun stored hstored => ?_
    simp only [List.mem_cons, List.not_mem_nil, or_false] at hstored
    rcases hstored with rfl | rfl
    · exact first.loosens_toStored
    · exact second.loosens_toStored
  · exact .value stored
  · cases horigin.symm.trans hstored
    exact origin.loosens_toStored

/-- A relation of a graph is read from its loosened form. -/
theorem Edge.ofStored?_of_loosens {edge : Edge} {value : Json}
    (h : Loosens (Form.relation "endpoints") edge.toStored value) :
    Edge.ofStored? value = some edge := by
  obtain ⟨members, hvalue, hpair, hnegate, horigin⟩ :=
    relation_of_loosens h rfl rfl rfl (by simp [Stored.defaults])
  simp only [ofStored?, hvalue, Option.bind_eq_bind, Option.bind_some, hpair, hnegate, horigin]
  rfl

/-- The stored form of a relation of a graph is one of its loosened forms. -/
theorem Edge.loosens_toStored (edge : Edge) :
    Loosens (Form.relation "endpoints") edge.toStored edge.toStored :=
  relation_loosens rfl rfl

/-- A relation of a chain is read from its loosened form. -/
theorem Hop.ofStored?_of_loosens {hop : Hop} {value : Json}
    (h : Loosens (Form.relation "relation") hop.toStored value) :
    Hop.ofStored? value = some hop := by
  obtain ⟨members, hvalue, hpair, hnegate, horigin⟩ :=
    relation_of_loosens h rfl rfl rfl (by simp [Stored.defaults])
  simp only [ofStored?, hvalue, Option.bind_eq_bind, Option.bind_some, hpair, hnegate, horigin]
  rfl

/-- The stored form of a relation of a chain is one of its loosened forms. -/
theorem Hop.loosens_toStored (hop : Hop) :
    Loosens (Form.relation "relation") hop.toStored hop.toStored :=
  relation_loosens rfl rfl

namespace Graph

/-- Clauses by index are read from their loosened form. -/
theorem queriesOfStored?_of_loosens {queries : List (String × List Clause)} {value : Json}
    (h : Loosens (.table (.list Form.clause)) (.object (queries.map fun (index, clauses) =>
      (index, .array (clauses.map Clause.toStored)))) value) :
    queriesOfStored? value = some queries := by
  obtain ⟨changed, rfl, hchanged⟩ := Loosens.exists_of_table h
  clear h
  rw [queriesOfStored?]
  induction queries generalizing changed with
  | nil =>
    cases hchanged
    rfl
  | cons first rest ih =>
    obtain ⟨index, clauses⟩ := first
    cases hchanged with
    | @cons _ new _ others hfirst hrest =>
      obtain ⟨key, found⟩ := new
      obtain ⟨hkey, hfound⟩ := hfirst
      have hclauses : Stored.array? Clause.ofStored? found = some clauses :=
        Loosens.array?_eq_some hfound fun clause _ new => Clause.ofStored?_of_loosens
      obtain rfl : index = key := hkey
      rw [List.mapM_cons, ih others hrest]
      simp only [hclauses]
      rfl

/-- A graph is read from its loosened form. -/
theorem ofStored?_of_loosens {graph : Graph} {value : Json}
    (h : Loosens Form.graph graph.toStored value) : Graph.ofStored? value = some graph := by
  obtain ⟨members, hvalue, hkeeps⟩ := Loosens.exists_members? Form.graph rfl h
  have hfocus : Stored.required? members "focus" Json.string? = some graph.focus := by
    refine Loosens.required?_eq_some (hkeeps "focus" .value _ (by simp) rfl)
      (by simp [Stored.defaults]) fun changed hchanged => ?_
    cases hchanged
    rfl
  have hrelations : Stored.required? members "relations" (Stored.array? Edge.ofStored?) =
      some graph.relations := by
    refine Loosens.required?_eq_some
      (hkeeps "relations" (.list (Form.relation "endpoints")) _ (by simp) rfl)
      (by simp [Stored.defaults]) fun changed hchanged => ?_
    exact Loosens.array?_eq_some hchanged fun edge _ new => Edge.ofStored?_of_loosens
  have hqueries : Stored.optional? members "queries" [] queriesOfStored? =
      some graph.queries := by
    refine Loosens.optional?_eq_some (hkeeps "queries" (.table (.list Form.clause)) _ (by simp) rfl)
      (fun hdefault => ?_) fun changed hchanged => queriesOfStored?_of_loosens hchanged
    simpa [Stored.defaults] using hdefault
  simp only [ofStored?, hvalue, Option.bind_eq_bind, Option.bind_some, hfocus, hrelations, hqueries]
  rfl

/-- The stored form of a graph is one of its loosened forms. -/
theorem loosens_toStored (graph : Graph) :
    Loosens Form.graph graph.toStored graph.toStored := by
  refine Loosens.fields_refl fun key form stored hknown hstored => ?_
  simp only [List.mem_cons, Prod.mk.injEq, List.not_mem_nil, or_false] at hknown
  rcases hknown with ⟨rfl, rfl⟩ | ⟨rfl, rfl⟩ | ⟨rfl, rfl⟩ <;> cases hstored
  · exact .value _
  · refine Loosens.list_refl fun stored hstored => ?_
    obtain ⟨edge, -, rfl⟩ := List.mem_map.mp hstored
    exact edge.loosens_toStored
  · refine Loosens.table_refl fun entry hentry => ?_
    obtain ⟨⟨index, clauses⟩, -, rfl⟩ := List.mem_map.mp hentry
    refine Loosens.list_refl fun stored hstored => ?_
    obtain ⟨clause, -, rfl⟩ := List.mem_map.mp hstored
    exact clause.loosens_toStored

end Graph

/-- Searching the members of an object for one that must be there reads the member with its name. -/
theorem Stored.eq_required? {α : Type} {name : String} {read : Json → Option α}
    {search : List (String × Json) → Option α} (hnil : search [] = none)
    (hcons : ∀ field value rest, search ((field, value) :: rest) =
      if field = name then read value else search rest) (members : List (String × Json)) :
    search members = Stored.required? members name read := by
  induction members with
  | nil => exact hnil
  | cons member rest ih =>
    obtain ⟨field, value⟩ := member
    rw [hcons, Stored.required?, List.lookup_cons, ih]
    by_cases hfield : field = name
    · simp [hfield]
    · rw [if_neg hfield, beq_false_of_ne (Ne.symm hfield)]
      rfl

/-- The steps of a stored chain are its member with this name. -/
theorem Step.inMembers?_eq (members : List (String × Json)) :
    Step.inMembers? members = Stored.required? members "steps" Step.arrayOfStored? :=
  Stored.eq_required? rfl (fun _ _ _ => rfl) members

/-- The branches of a stored group are its member with this name. -/
theorem Chain.inMembers?_eq (members : List (String × Json)) :
    Chain.inMembers? members = Stored.required? members "branches" Chain.arrayOfStored? :=
  Stored.eq_required? rfl (fun _ _ _ => rfl) members

/-- What is read from the first element of a row, and the place behind it, are the members with
these names. -/
theorem Stored.row_eq {α β : Type} {form item : Form} {name : String}
    (hform : form.unfold = .fields [(name, item), ("origin", Form.pointer)])
    (hname : name ≠ "origin") (read : Json → Option α) (make : Pointer → α → β) (first : Json)
    (rest : List Json) :
    (do
      let value ← read first
      return make (← Pointer.ofRest? rest) value) = (do
      let members ← form.members? (.array (first :: rest))
      let value ← Stored.required? members name read
      let origin ← Stored.optional? members "origin" Pointer.root Pointer.ofStored?
      return make origin value) := by
  have hother : ("origin" == name) = false := beq_false_of_ne hname.symm
  match rest with
  | [] =>
    simp [Form.members?, hform, Stored.required?, Stored.optional?, Pointer.ofRest?,
      List.lookup_cons, hother]
  | [place] =>
    simp [Form.members?, hform, Stored.required?, Stored.optional?, Pointer.ofRest?,
      List.lookup_cons, hother]
  | _ :: _ :: _ =>
    simp [Form.members?, hform, Pointer.ofRest?]

/-- A chain is read from the members of an object or of a row. -/
theorem Chain.ofStored?_eq (value : Json) :
    Chain.ofStored? value = (do
      let members ← Form.chain.members? value
      let steps ← Stored.required? members "steps" Step.arrayOfStored?
      let origin ← Stored.optional? members "origin" Pointer.root Pointer.ofStored?
      return ⟨origin, steps⟩) := by
  cases value with
  | object members =>
    rw [Chain.ofStored?, Step.inMembers?_eq]
    rfl
  | array row =>
    cases row with
    | nil => rfl
    | cons steps rest =>
      rw [Chain.ofStored?]
      exact Stored.row_eq rfl (by decide) Step.arrayOfStored? Chain.mk steps rest
  | _ => rfl

/-- A group is read from the members of an object or of a row. -/
theorem Step.groupOfStored?_eq (value : Json) :
    Step.groupOfStored? value = (do
      let members ← Form.group.members? value
      let branches ← Stored.required? members "branches" Chain.arrayOfStored?
      let origin ← Stored.optional? members "origin" Pointer.root Pointer.ofStored?
      return .group origin branches) := by
  cases value with
  | object members =>
    rw [Step.groupOfStored?, Chain.inMembers?_eq]
    rfl
  | array row =>
    cases row with
    | nil => rfl
    | cons branches rest =>
      rw [Step.groupOfStored?]
      exact Stored.row_eq rfl (by decide) Chain.arrayOfStored? Step.group branches rest
  | _ => rfl

mutual

/-- A chain is read from its loosened form. -/
theorem Chain.ofStored?_of_loosens (chain : Chain) {value : Json}
    (h : Loosens .chain chain.toStored value) : Chain.ofStored? value = some chain := by
  obtain ⟨origin, steps⟩ := chain
  cases h with
  | chain h =>
    obtain ⟨members, hvalue, hkeeps⟩ := Loosens.exists_members? Form.chain rfl h
    have hsteps : Stored.required? members "steps" Step.arrayOfStored? = some steps := by
      refine Loosens.required?_eq_some (hkeeps "steps" (.list Form.step) _ (by simp) rfl)
        (by simp [Stored.defaults]) fun changed hchanged => ?_
      obtain ⟨items, rfl, hitems⟩ := Loosens.exists_of_list hchanged
      exact Step.listOfStored?_of_loosens steps hitems
    have horigin := Pointer.origin_eq_some (hkeeps "origin" Form.pointer _ (by simp) rfl)
    rw [Chain.ofStored?_eq]
    simp only [hvalue, Option.bind_eq_bind, Option.bind_some, hsteps, horigin]
    rfl

/-- Steps are read from their loosened forms. -/
theorem Step.listOfStored?_of_loosens (steps : List Step) {changed : List Json}
    (h : List.Forall₂ (Loosens Form.step) (Step.storedAll steps) changed) :
    Step.listOfStored? changed = some steps := by
  cases steps with
  | nil =>
    cases h
    rfl
  | cons step rest =>
    cases h with
    | cons hfirst hrest =>
      have hstep := Step.ofStored?_of_loosens step hfirst
      have hothers := Step.listOfStored?_of_loosens rest hrest
      simp only [Step.listOfStored?, hstep, hothers]
      rfl

/-- A step is read from its loosened form. -/
theorem Step.ofStored?_of_loosens (step : Step) {value : Json}
    (h : Loosens Form.step step.toStored value) : Step.ofStored? value = some step := by
  cases step with
  | relation hop =>
    cases h with
    | @variant _ _ form _ new hname hvalue =>
      obtain rfl : form = Form.relation "relation" := by simpa using hname
      simp only [Step.ofStored?, Hop.ofStored?_of_loosens hvalue]
      rfl
  | group origin branches =>
    cases h with
    | @variant _ _ form _ new hname hvalue =>
      obtain rfl : form = Form.group := by simpa using hname
      obtain ⟨members, hgroup, hkeeps⟩ := Loosens.exists_members? Form.group rfl hvalue
      have hbranches : Stored.required? members "branches" Chain.arrayOfStored? =
          some branches := by
        refine Loosens.required?_eq_some (hkeeps "branches" (.list .chain) _ (by simp) rfl)
          (by simp [Stored.defaults]) fun changed hchanged => ?_
        obtain ⟨items, rfl, hitems⟩ := Loosens.exists_of_list hchanged
        exact Chain.listOfStored?_of_loosens branches hitems
      have horigin := Pointer.origin_eq_some (hkeeps "origin" Form.pointer _ (by simp) rfl)
      have hread : Step.groupOfStored? new = some (.group origin branches) := by
        rw [Step.groupOfStored?_eq]
        simp only [hgroup, Option.bind_eq_bind, Option.bind_some, hbranches, horigin]
        rfl
      rw [Step.ofStored?, if_neg (by decide), if_pos rfl, hread]

/-- Branches are read from their loosened forms. -/
theorem Chain.listOfStored?_of_loosens (branches : List Chain) {changed : List Json}
    (h : List.Forall₂ (Loosens .chain) (Chain.storedAll branches) changed) :
    Chain.listOfStored? changed = some branches := by
  cases branches with
  | nil =>
    cases h
    rfl
  | cons branch rest =>
    cases h with
    | cons hfirst hrest =>
      have hbranch := Chain.ofStored?_of_loosens branch hfirst
      have hothers := Chain.listOfStored?_of_loosens rest hrest
      simp only [Chain.listOfStored?, hbranch, hothers]
      rfl

end

mutual

/-- The stored form of a chain is one of its loosened forms. -/
theorem Chain.loosens_toStored (chain : Chain) :
    Loosens .chain chain.toStored chain.toStored := by
  obtain ⟨origin, steps⟩ := chain
  refine .chain (Loosens.fields_refl fun key form stored hknown hstored => ?_)
  simp only [List.mem_cons, Prod.mk.injEq, List.not_mem_nil, or_false] at hknown
  rcases hknown with ⟨rfl, rfl⟩ | ⟨rfl, rfl⟩ <;> cases hstored
  · exact Loosens.list_refl (Step.loosens_storedAll steps)
  · exact origin.loosens_toStored

/-- The stored forms of steps are among their loosened forms. -/
theorem Step.loosens_storedAll (steps : List Step) :
    ∀ stored ∈ Step.storedAll steps, Loosens Form.step stored stored := by
  cases steps with
  | nil => exact List.forall_mem_nil _
  | cons step rest =>
    exact List.forall_mem_cons.mpr ⟨Step.loosens_toStored step, Step.loosens_storedAll rest⟩

/-- The stored form of a step is one of its loosened forms. -/
theorem Step.loosens_toStored (step : Step) :
    Loosens Form.step step.toStored step.toStored := by
  cases step with
  | relation hop => exact .variant List.mem_cons_self hop.loosens_toStored
  | group origin branches =>
    refine @Loosens.variant _ _ Form.group _ _ (by simp) (Loosens.fields_refl
      fun key form stored hknown hstored => ?_)
    simp only [List.mem_cons, Prod.mk.injEq, List.not_mem_nil, or_false] at hknown
    rcases hknown with ⟨rfl, rfl⟩ | ⟨rfl, rfl⟩ <;> cases hstored
    · exact Loosens.list_refl (Chain.loosens_storedAll branches)
    · exact origin.loosens_toStored

/-- The stored forms of branches are among their loosened forms. -/
theorem Chain.loosens_storedAll (branches : List Chain) :
    ∀ stored ∈ Chain.storedAll branches, Loosens .chain stored stored := by
  cases branches with
  | nil => exact List.forall_mem_nil _
  | cons branch rest =>
    exact List.forall_mem_cons.mpr ⟨Chain.loosens_toStored branch, Chain.loosens_storedAll rest⟩

end

/-- The form of the specifications with a label. -/
def Form.specification : Label → Form
  | .joinSet => graph
  | .joinSequence => chain

namespace Specification

/-- **Reading stored specifications.** From every loosened form of the stored value of a
specification, the stored value itself and rows of its members among them, the same specification
is read. So reading it anew changes neither what its checks say nor what it is compiled to. Nothing
is asked of the specification: relations of an index with itself, misplaced or empty groups, clauses
that no join carries and clauses of the wrong kind are all stored and read. -/
theorem ofStored?_loosened (specification : Specification) :
    (Form.specification specification.label).Loosens specification.toStored
      specification.toStored ∧
    ∀ value, (Form.specification specification.label).Loosens specification.toStored value →
      ∃ reread, ofStored? specification.label value = some reread ∧ reread = specification ∧
        reread.check = specification.check ∧ reread.checkFocus = specification.checkFocus ∧
        ∀ sentinel, reread.compile sentinel = specification.compile sentinel := by
  cases specification with
  | graph g =>
    refine ⟨g.loosens_toStored, fun value hvalue => ⟨.graph g, ?_, rfl, rfl, rfl, fun _ => rfl⟩⟩
    have hgraph : Graph.ofStored? value = some g := Graph.ofStored?_of_loosens hvalue
    change (Graph.ofStored? value).map Specification.graph = _
    rw [hgraph]
    rfl
  | chain c =>
    refine ⟨c.loosens_toStored, fun value hvalue => ⟨.chain c, ?_, rfl, rfl, rfl, fun _ => rfl⟩⟩
    have hchain : Chain.ofStored? value = some c := Chain.ofStored?_of_loosens c hvalue
    change (Chain.ofStored? value).map Specification.chain = _
    rw [hchain]
    rfl

/-- A chain that ends with an empty group. -/
def groupLast : Chain :=
  ⟨Pointer.root, [
    .relation ⟨Endpoint.ofIndex "b" "id", Endpoint.ofIndex "a" "to_b", false, Pointer.root⟩,
    .group Pointer.root []]⟩

/-- Its stored form without places and with members that are not known, the group as a row. -/
def groupLastLoosened : Json :=
  .object [
    ("note", .string "draft"),
    ("steps", .array [
      .object [("relation", .object [("relation", .array [(Endpoint.ofIndex "b" "id").toStored,
        (Endpoint.ofIndex "a" "to_b").toStored]), ("weight", .null)])],
      .object [("group", .array [.array []])]])]

/-- The chain is read from this value. -/
theorem ofStored?_groupLast :
    Form.chain.Loosens groupLast.toStored groupLastLoosened ∧
      ofStored? .joinSequence groupLastLoosened = some (.chain groupLast) := by
  have horigin : ("origin", Pointer.root.toStored) ∈ Stored.defaults :=
    List.mem_cons_of_mem _ List.mem_cons_self
  have hrelation : (Form.relation "relation").Loosens
      (Hop.mk (Endpoint.ofIndex "b" "id") (Endpoint.ofIndex "a" "to_b") false
        Pointer.root).toStored
      (.object [("relation", .array [(Endpoint.ofIndex "b" "id").toStored,
        (Endpoint.ofIndex "a" "to_b").toStored]), ("weight", .null)]) := by
    refine Loosens.fields_of_keeps fun key form stored hknown hstored => ?_
    simp only [List.mem_cons, Prod.mk.injEq, List.not_mem_nil, or_false] at hknown
    rcases hknown with ⟨rfl, rfl⟩ | ⟨rfl, rfl⟩ | ⟨rfl, rfl⟩ <;> cases hstored
    · refine .inl ⟨_, rfl, Loosens.list_of_forall₂ (.cons ?_ (.cons ?_ .nil))⟩
      · exact Endpoint.loosens_toStored _
      · exact Endpoint.loosens_toStored _
    · exact .inr ⟨rfl, List.mem_cons_self⟩
    · exact .inr ⟨rfl, horigin⟩
  have hgroup : Form.group.Loosens
      (.object [("branches", .array []), ("origin", Pointer.root.toStored)])
      (.array [.array []]) := by
    refine .row (by decide) (Loosens.fields_of_keeps fun key form stored hknown hstored => ?_)
    simp only [List.mem_cons, Prod.mk.injEq, List.not_mem_nil, or_false] at hknown
    rcases hknown with ⟨rfl, rfl⟩ | ⟨rfl, rfl⟩ <;> cases hstored
    · exact .inl ⟨_, rfl, Loosens.list_of_forall₂ .nil⟩
    · exact .inr ⟨rfl, horigin⟩
  have hloosens : Form.chain.Loosens groupLast.toStored groupLastLoosened := by
    refine .chain (Loosens.fields_of_keeps fun key form stored hknown hstored => ?_)
    simp only [List.mem_cons, Prod.mk.injEq, List.not_mem_nil, or_false] at hknown
    rcases hknown with ⟨rfl, rfl⟩ | ⟨rfl, rfl⟩ <;> cases hstored
    · refine .inl ⟨_, rfl, Loosens.list_of_forall₂ (.cons ?_ (.cons ?_ .nil))⟩
      · exact .variant List.mem_cons_self hrelation
      · exact .variant (List.mem_cons_of_mem _ List.mem_cons_self) hgroup
    · exact .inr ⟨rfl, horigin⟩
  obtain ⟨_, hreread, rfl, -⟩ := (ofStored?_loosened (.chain groupLast)).2 _ hloosens
  exact ⟨hloosens, hreread⟩

end Specification

end Semijoin
