import Semijoin.Proofs.Chain.Nesting
import Semijoin.Proofs.Document.Rewriting
import Semijoin.Proofs.Graph.Tour
import Semijoin.Proofs.Join.Carrying

/-!
# What the joins of a specification carry along

A specification takes its clauses from the value under its label, where they are elements of arrays.
So the joins of a specification carry along what a property that passes from a value to its parts
gives for the elements of arrays.
-/

namespace Semijoin

open Json

/-- A property of values passes to their parts, and gives another one for the elements of
arrays. -/
structure Json.PassesDown (part body : Json → Prop) : Prop where
  null : part .null
  item {items : List Json} : part (.array items) → ∀ item ∈ items, part item
  element {items : List Json} : part (.array items) → ∀ item ∈ items, body item
  member {members : List (String × Json)} :
    part (.object members) → ∀ member ∈ members, part member.2

variable {part body : Json → Prop}

/-- The clauses written at an endpoint have a property. -/
def Endpoint.Carries (body : Json → Prop) (endpoint : Endpoint) : Prop :=
  Clause.AllHave body endpoint.queries

/-- The clauses given for the indices of a graph have a property. -/
def Graph.Carries (body : Json → Prop) (graph : Graph) : Prop :=
  ∀ entry ∈ graph.queries, Clause.AllHave body entry.2

mutual

/-- The clauses in a chain that become part of joins have a property. -/
def Chain.Carries (body : Json → Prop) : Chain → Prop
  | ⟨_, steps⟩ => Step.AllCarry body steps

/-- The clauses in a step that become part of joins have a property. -/
def Step.Carries (body : Json → Prop) : Step → Prop
  | .relation hop => hop.joined.Carries body
  | .group _ branches => Chain.AllCarry body branches

/-- The clauses in some steps that become part of joins have a property. -/
def Step.AllCarry (body : Json → Prop) : List Step → Prop
  | [] => True
  | step :: rest => step.Carries body ∧ Step.AllCarry body rest

/-- The clauses in some chains that become part of joins have a property. -/
def Chain.AllCarry (body : Json → Prop) : List Chain → Prop
  | [] => True
  | chain :: rest => chain.Carries body ∧ Chain.AllCarry body rest

end

section Reading

/-- What is read from the elements of an array is read from one of them each. -/
theorem Field.exists_of_mem_items {α : Type} {read : Pointer → Json → Except Fault α}
    {place : Pointer} {position : Nat} {values : List Json} {results : List α}
    (h : items read place position values = .ok results) {result : α} (hresult : result ∈ results) :
    ∃ value ∈ values, ∃ place, read place value = .ok result := by
  induction values generalizing position results with
  | nil =>
    cases h
    cases hresult
  | cons value rest ih =>
    obtain ⟨first, hfirst, h⟩ := bind_eq_ok h
    obtain ⟨others, hothers, h⟩ := bind_eq_ok h
    cases h
    rcases List.mem_cons.mp hresult with rfl | hresult
    · exact ⟨value, List.mem_cons_self, place.index position, hfirst⟩
    · obtain ⟨other, hother, found⟩ := ih hothers hresult
      exact ⟨other, List.mem_cons_of_mem _ hother, found⟩

/-- What going through a list gives comes from one of its elements each. -/
theorem exists_of_mem_mapM {α β : Type} {f : α → Except Fault β} {values : List α}
    {results : List β} (h : values.mapM f = .ok results) {result : β} (hresult : result ∈ results) :
    ∃ value ∈ values, f value = .ok result := by
  induction values generalizing results with
  | nil =>
    cases h
    cases hresult
  | cons value rest ih =>
    rw [List.mapM_cons] at h
    obtain ⟨first, hfirst, h⟩ := bind_eq_ok h
    obtain ⟨others, hothers, h⟩ := bind_eq_ok h
    cases h
    rcases List.mem_cons.mp hresult with rfl | hresult
    · exact ⟨value, List.mem_cons_self, hfirst⟩
    · obtain ⟨other, hother, hfound⟩ := ih hothers hresult
      exact ⟨other, List.mem_cons_of_mem _ hother, hfound⟩

/-- What is found under a key of an object is one of its parts. -/
theorem part_of_lookup {members : List (String × Json)} (h : ∀ member ∈ members, part member.2)
    {key : String} {value : Json} (hvalue : members.lookup key = some value) : part value := by
  obtain ⟨before, after, rfl, -⟩ := List.lookup_eq_some_iff.mp hvalue
  exact h (key, value) (by simp)

/-- Clauses are read from the elements of an array. -/
theorem Clause.allHave_of_readAll (hdown : PassesDown part body)
    {place : Pointer} {value : Json} (hvalue : part value)
    {clauses : List Clause} (h : readAll place value = .ok clauses) : AllHave body clauses := by
  unfold readAll at h
  split at h
  · cases h
    exact List.forall_mem_nil _
  · intro clause hclause
    obtain ⟨item, hitem, place, hread⟩ := Field.exists_of_mem_items h hclause
    have hbody := hdown.element hvalue item hitem
    unfold read at hread
    split at hread
    · cases hread
      unfold ofBody
      split <;> exact hbody
    · cases hread
  · cases h

/-- The clauses at an endpoint are read from its queries. -/
theorem Endpoint.carries_of_read (hdown : PassesDown part body)
    {place : Pointer} {value : Json} (hvalue : part value)
    {endpoint : Endpoint} (h : read place value = .ok endpoint) : endpoint.Carries body := by
  unfold read at h
  split at h
  · rename_i members
    have hqueries : part ((members.lookup "queries").getD .null) := by
      cases hlookup : members.lookup "queries" with
      | none => exact hdown.null
      | some queries => exact part_of_lookup (hdown.member hvalue) hlookup
    split at h
    · cases h
    · obtain ⟨path, -, h⟩ := bind_eq_ok h
      obtain ⟨indices, -, h⟩ := bind_eq_ok h
      obtain ⟨types, -, h⟩ := bind_eq_ok h
      obtain ⟨orderBy, -, h⟩ := bind_eq_ok h
      obtain ⟨limit, -, h⟩ := bind_eq_ok h
      obtain ⟨encoding, -, h⟩ := bind_eq_ok h
      obtain ⟨clauses, hclauses, h⟩ := bind_eq_ok h
      cases h
      exact Clause.allHave_of_readAll hdown hqueries hclauses
  · cases h

/-- The first endpoint of a pair is read from the first element. -/
theorem Endpoint.carries_of_readPair (hdown : PassesDown part body)
    {place : Pointer} {value : Json} (hvalue : part value)
    {pair : Endpoint × Endpoint} (h : readPair place value = .ok pair) :
    pair.1.Carries body := by
  unfold readPair at h
  split at h
  · obtain ⟨first, hfirst, h⟩ := bind_eq_ok h
    obtain ⟨second, -, h⟩ := bind_eq_ok h
    cases h
    exact carries_of_read hdown (hdown.item hvalue _ List.mem_cons_self) hfirst
  · cases h

/-- The clauses of an index are read from a member of the queries. -/
theorem Graph.allHave_of_readQueries (hdown : PassesDown part body)
    {place : Pointer} {members : List (String × Json)}
    (hmembers : ∀ member ∈ members, part member.2) {queries : List (String × List Clause)}
    (h : readQueries members place = .ok queries) :
    ∀ entry ∈ queries, Clause.AllHave body entry.2 := by
  unfold readQueries Field.find? at h
  intro entry hentry
  split at h
  · cases h
    cases hentry
  · rename_i byIndex hfind
    obtain ⟨⟨index, value⟩, hvalue, hread⟩ := exists_of_mem_mapM h hentry
    obtain ⟨clauses, hclauses, hread⟩ := bind_eq_ok hread
    cases hread
    have hbyIndex : part (.object byIndex) := by
      split at hfind
      · cases hfind
      · exact part_of_lookup hmembers hfind
    exact Clause.allHave_of_readAll hdown (hdown.member hbyIndex _ hvalue) hclauses
  · cases h

/-- The clauses of a graph are read from the value that it is read from. -/
theorem Graph.carries_of_read (hdown : PassesDown part body)
    {place : Pointer} {value : Json} (hvalue : part value)
    {graph : Graph} (h : read place value = .ok graph) : graph.Carries body := by
  unfold read at h
  split at h
  · obtain ⟨focus, -, h⟩ := bind_eq_ok h
    obtain ⟨relations, -, h⟩ := bind_eq_ok h
    obtain ⟨queries, hqueries, h⟩ := bind_eq_ok h
    obtain ⟨_, -, h⟩ := bind_eq_ok h
    cases h
    exact allHave_of_readQueries hdown (hdown.member hvalue) hqueries
  · cases h

/-- The clauses that a relation of a chain takes along are read from its members. -/
theorem Hop.carries_of_read (hdown : PassesDown part body)
    {place : Pointer} {members : List (String × Json)}
    (hmembers : ∀ member ∈ members, part member.2) {hop : Hop}
    (h : read members place = .ok hop) : hop.joined.Carries body := by
  unfold read at h
  split at h
  · cases h
  · rename_i endpoints hlookup
    obtain ⟨pair, hpair, h⟩ := bind_eq_ok h
    obtain ⟨negate, -, h⟩ := bind_eq_ok h
    cases h
    exact Endpoint.carries_of_readPair hdown (part_of_lookup hmembers hlookup) hpair

mutual

/-- The clauses of a chain are read from the value that it is read from. -/
theorem Chain.carries_of_readShape (hdown : PassesDown part body)
    (place : Pointer) (value : Json) (hvalue : part value)
    {chain : Chain} (h : Chain.readShape place value = .ok chain) : chain.Carries body := by
  cases value with
  | array steps =>
    rw [Chain.readShape] at h
    obtain ⟨read, hread, h⟩ := bind_eq_ok h
    cases h
    exact Step.allCarry_of_readAll hdown place 0 steps (hdown.item hvalue) hread
  | null | bool _ | number _ | string _ | object _ => cases h

/-- The clauses of steps are read from the values that these are read from. -/
theorem Step.allCarry_of_readAll (hdown : PassesDown part body)
    (place : Pointer) (position : Nat) (values : List Json)
    (hvalues : ∀ value ∈ values, part value) {steps : List Step}
    (h : Step.readAll place position values = .ok steps) : Step.AllCarry body steps := by
  cases values with
  | nil =>
    cases h
    exact trivial
  | cons value rest =>
    obtain ⟨hvalue, hrest⟩ := List.forall_mem_cons.mp hvalues
    rw [Step.readAll] at h
    obtain ⟨first, hfirst, h⟩ := bind_eq_ok h
    obtain ⟨others, hothers, h⟩ := bind_eq_ok h
    cases h
    exact ⟨Step.carries_of_read hdown _ value hvalue hfirst,
      Step.allCarry_of_readAll hdown place (position + 1) rest hrest hothers⟩

/-- The clauses of a step are read from the value that it is read from. -/
theorem Step.carries_of_read (hdown : PassesDown part body)
    (place : Pointer) (value : Json) (hvalue : part value) {step : Step}
    (h : Step.read place value = .ok step) : step.Carries body := by
  cases value with
  | object members =>
    have hmembers := hdown.member hvalue
    rw [Step.read] at h
    cases hgroup : Step.readGroup? place members with
    | some group =>
      rw [hgroup] at h
      exact Step.carries_of_readGroup? hdown place members hmembers (hgroup.trans (congrArg some h))
    | none =>
      rw [hgroup] at h
      obtain ⟨hop, hhop, h⟩ := bind_eq_ok h
      cases h
      exact Hop.carries_of_read hdown hmembers hhop
  | null | bool _ | number _ | string _ | array _ => cases h

/-- The clauses of a group are read from the members of its step. -/
theorem Step.carries_of_readGroup? (hdown : PassesDown part body)
    (place : Pointer) (members : List (String × Json))
    (hmembers : ∀ member ∈ members, part member.2) {step : Step}
    (h : Step.readGroup? place members = some (.ok step)) : step.Carries body := by
  match members with
  | [] => cases h
  | (field, value) :: rest =>
    obtain ⟨hvalue, hrest⟩ := List.forall_mem_cons.mp hmembers
    rw [Step.readGroup?] at h
    split at h
    · obtain ⟨branches, hbranches, hstep⟩ := bind_eq_ok (Option.some.inj h)
      cases hstep
      exact Chain.allCarry_of_readBranches hdown _ value hvalue hbranches
    · exact Step.carries_of_readGroup? hdown place rest hrest h

/-- The clauses of branches are read from the value that these are read from. -/
theorem Chain.allCarry_of_readBranches (hdown : PassesDown part body)
    (place : Pointer) (value : Json) (hvalue : part value)
    {branches : List Chain} (h : Chain.readBranches place value = .ok branches) :
    Chain.AllCarry body branches := by
  cases value with
  | array values => exact Chain.allCarry_of_readShapes hdown place 0 values (hdown.item hvalue) h
  | null | bool _ | number _ | string _ | object _ => cases h

/-- The clauses of branches are read from the elements of an array. -/
theorem Chain.allCarry_of_readShapes (hdown : PassesDown part body)
    (place : Pointer) (position : Nat) (values : List Json)
    (hvalues : ∀ value ∈ values, part value) {branches : List Chain}
    (h : Chain.readShapes place position values = .ok branches) :
    Chain.AllCarry body branches := by
  cases values with
  | nil =>
    cases h
    exact trivial
  | cons value rest =>
    obtain ⟨hvalue, hrest⟩ := List.forall_mem_cons.mp hvalues
    rw [Chain.readShapes] at h
    obtain ⟨first, hfirst, h⟩ := bind_eq_ok h
    obtain ⟨others, hothers, h⟩ := bind_eq_ok h
    cases h
    exact ⟨Chain.carries_of_readShape hdown _ value hvalue hfirst,
      Chain.allCarry_of_readShapes hdown place (position + 1) rest hrest hothers⟩

end

end Reading

section Compiling

variable {sentinel : String}

/-- The join of a relation carries the clauses of the index on its far side. -/
theorem Graph.Carries.ownJoin {graph : Graph} (h : graph.Carries body) (side : Orientation) :
    (graph.ownJoin sentinel side).Carries body := by
  refine (Join.carries_bare _ _ _).attaching (Attachment.allCarry_clauseAttachments ?_)
  cases side.far.index? with
  | none => exact List.forall_mem_nil _
  | some index =>
    change Clause.AllHave body ((graph.queries.lookup index).getD [])
    cases hlookup : graph.queries.lookup index with
    | none => exact List.forall_mem_nil _
    | some clauses =>
      obtain ⟨before, after, hqueries, -⟩ := List.lookup_eq_some_iff.mp hlookup
      exact h (index, clauses) (by simp [hqueries])

mutual

/-- The join of an offshoot carries clauses of the graph. -/
theorem Offshoot.carries_join {graph : Graph} (h : graph.Carries body) : (offshoot : Offshoot) →
    (offshoot.join graph sentinel).1.Carries body
  | .mk seen nested => by
    rw [Offshoot.join]
    exact (h.ownJoin seen.side).attaching
      (Attachment.allCarry_joinAttachments (Offshoot.carries_joins h nested))

/-- The joins of offshoots carry clauses of the graph. -/
theorem Offshoot.carries_joins {graph : Graph} (h : graph.Carries body) :
    (offshoots : List Offshoot) →
    ∀ join ∈ Offshoot.joins graph sentinel offshoots, join.1.Carries body
  | [] => List.forall_mem_nil _
  | first :: rest => by
    rw [Offshoot.joins]
    exact List.forall_mem_cons.mpr ⟨Offshoot.carries_join h first, Offshoot.carries_joins h rest⟩

end

/-- The joins that a walk finds carry clauses of the graph. -/
theorem Graph.Carries.walkFrom {graph : Graph} (h : graph.Carries body) {levels : Nat}
    {index : String} {visited : List String} {walked : Walked}
    (hwalked : (graph.walkFrom sentinel levels index visited).result = .ok walked) :
    ∀ join ∈ walked.joins, join.1.Carries body := by
  obtain ⟨passages, -, hjoins⟩ := tours_of_walkFrom graph sentinel _ _ _ _ hwalked
  rw [hjoins]
  exact Offshoot.carries_joins h _

/-- The joins that a graph compiles to carry its clauses. -/
theorem Graph.Carries.joins {graph : Graph} (h : graph.Carries body) {joins : List (Join × Bool)}
    (hjoins : (graph.joins sentinel).result = .ok joins) :
    ∀ join ∈ joins, join.1.Carries body := by
  rw [result_joins] at hjoins
  obtain ⟨_, -, hjoins⟩ := bind_eq_ok hjoins
  obtain ⟨_, -, hjoins⟩ := bind_eq_ok hjoins
  obtain ⟨walked, hwalked, hjoins⟩ := bind_eq_ok hjoins
  cases hjoins
  exact h.walkFrom hwalked

/-- The join of a step carries the clauses of the step and what the joins below carry. -/
theorem Hop.carries_joinOver {hop : Hop} (h : hop.joined.Carries body)
    {below : List (Join × Bool)} (hbelow : ∀ join ∈ below, join.1.Carries body) :
    (hop.joinOver sentinel below).1.Carries body :=
  ((Join.carries_bare _ _ _).attaching (Attachment.allCarry_clauseAttachments h)).attaching
    (Attachment.allCarry_joinAttachments hbelow)

mutual

/-- The joins of a chain carry its clauses. -/
theorem Chain.carries_pile : (chain : Chain) → chain.Carries body →
    ∀ join ∈ chain.pile sentinel, join.1.Carries body
  | ⟨_, steps⟩, h => Step.carries_pileAll [] steps (List.forall_mem_nil _) h

/-- The joins of some steps carry their clauses and what the joins below carry. -/
theorem Step.carries_pileAll (below : List (Join × Bool)) : (steps : List Step) →
    (∀ join ∈ below, join.1.Carries body) → Step.AllCarry body steps →
    ∀ join ∈ Step.pileAll sentinel below steps, join.1.Carries body
  | [], hbelow, _ => hbelow
  | step :: rest, hbelow, h =>
    Step.carries_pileAll _ rest (Step.carries_pile below step hbelow h.1) h.2

/-- The joins of a step carry its clauses and what the joins below carry. -/
theorem Step.carries_pile (below : List (Join × Bool)) : (step : Step) →
    (∀ join ∈ below, join.1.Carries body) → step.Carries body →
    ∀ join ∈ step.pile sentinel below, join.1.Carries body
  | .relation _, hbelow, h => List.forall_mem_singleton.mpr (Hop.carries_joinOver h hbelow)
  | .group _ branches, hbelow, h =>
    List.forall_mem_append.mpr ⟨hbelow, Chain.carries_pileAll branches h⟩

/-- The joins of branches carry their clauses. -/
theorem Chain.carries_pileAll : (branches : List Chain) → Chain.AllCarry body branches →
    ∀ join ∈ Chain.pileAll sentinel branches, join.1.Carries body
  | [], _ => List.forall_mem_nil _
  | branch :: rest, h =>
    List.forall_mem_append.mpr ⟨Chain.carries_pile branch h.1, Chain.carries_pileAll rest h.2⟩

end

/-- The joins that a chain compiles to carry its clauses. -/
theorem Chain.Carries.joins {chain : Chain} (h : chain.Carries body) {joins : List (Join × Bool)}
    (hjoins : (chain.joins sentinel).result = .ok joins) :
    ∀ join ∈ joins, join.1.Carries body := by
  rw [result_joins] at hjoins
  obtain ⟨_, -, hjoins⟩ := bind_eq_ok hjoins
  obtain ⟨tier, htier, hjoins⟩ := bind_eq_ok hjoins
  cases hjoins
  rw [Chain.joins_tier chain htier]
  exact Chain.carries_pile chain h

end Compiling

namespace Specification

variable {sentinel : String}

/-- The clauses of a specification that become part of joins have a property. -/
def Carries (body : Json → Prop) : Specification → Prop
  | .graph g => g.Carries body
  | .chain c => c.Carries body

/-- The clauses of a specification are read from the value that it is read from. -/
theorem carries_of_read (hdown : PassesDown part body) {label : Label} {place : Pointer}
    {value : Json} (hvalue : part value) {specification : Specification}
    (hread : read label place value = .ok specification) : specification.Carries body := by
  cases label with
  | joinSet =>
    obtain ⟨graph, hgraph, hread⟩ := bind_eq_ok hread
    cases hread
    exact Graph.carries_of_read hdown hvalue hgraph
  | joinSequence =>
    obtain ⟨chain, hchain, hread⟩ := bind_eq_ok hread
    cases hread
    obtain ⟨shape, hshape, hchain⟩ := bind_eq_ok hchain
    obtain ⟨_, -, hchain⟩ := bind_eq_ok hchain
    cases hchain
    exact Chain.carries_of_readShape hdown place value hvalue hshape

/-- The joins of a specification carry its clauses. -/
theorem Carries.joins {specification : Specification} (h : specification.Carries body)
    {joins : List (Join × Bool)} (hjoins : (specification.joins sentinel).result = .ok joins) :
    ∀ join ∈ joins, join.1.Carries body := by
  cases specification with
  | graph g => exact Graph.Carries.joins h hjoins
  | chain c => exact Chain.Carries.joins h hjoins

/-- The joins of a specification carry clauses of the value that it is read from. -/
theorem carries_of_joins (hdown : PassesDown part body) {label : Label} {place : Pointer}
    {value : Json} (hvalue : part value) {specification : Specification}
    (hread : read label place value = .ok specification) {joins : List (Join × Bool)}
    (hjoins : (specification.joins sentinel).result = .ok joins) :
    ∀ join ∈ joins, join.1.Carries body :=
  (carries_of_read hdown hvalue hread).joins hjoins

/-- The clauses of a specification are those of joins that can be built from it. -/
theorem exists_joins_of_clauses? {label : Label} {value : Json} {clauses : List Json}
    (h : clauses? sentinel label value = some clauses) :
    ∃ specification joins, read label Pointer.root value = .ok specification ∧
      (specification.joins sentinel).result = .ok joins ∧ clauses = Join.clauses joins := by
  obtain ⟨specification, hread, hclauses⟩ := bind_eq_ok (eq_ok_of_toOption h)
  rw [result_compile] at hclauses
  obtain ⟨joins, hjoins, hclauses⟩ := bind_eq_ok hclauses
  cases hclauses
  exact ⟨specification, joins, hread, hjoins, rfl⟩

end Specification

end Semijoin
