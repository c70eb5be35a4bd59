import Semijoin.Proofs.Chain.Limit
import Semijoin.Proofs.Graph.Passing
import Semijoin.Specification

/-!
# The faults of a specification

Reading a specification and compiling it find fault with the specification only, never with the
object that holds it. Once it has been read, and the clauses of the focus have been checked, the
only fault that is left is that joins nest too deep.
-/

namespace Semijoin

/-- A fault in a specification itself, not in the way a document holds it. -/
def Fault.Inside : Fault → Prop
  | .crowdedHost .. | .malformed (.hostMissing _) _ => False
  | .missingField .. | .malformed .. | .unknownField .. | .rootFilters _ | .rootQueries _
  | .selfRelation .. => True

/-- Joins nest too deep somewhere. -/
def Fault.TooDeep (fault : Fault) : Prop := ∃ place, fault = .malformed .tooDeep place

/-- Joins nest too deep in a specification. -/
theorem Fault.TooDeep.inside {fault : Fault} (h : fault.TooDeep) : fault.Inside := by
  obtain ⟨place, rfl⟩ := h
  exact trivial

section Reading

open FaultsAre

variable {α : Type} (place : Pointer) (members : List (String × Json)) (field : String)

/-- The faults in reading elements are those of the elements. -/
theorem Field.faultsAre_items {kind : Fault → Prop} {read : Pointer → Json → Except Fault α}
    (h : ∀ place value, FaultsAre kind (read place value)) (position : Nat) (values : List Json) :
    FaultsAre kind (items read place position values) := by
  induction values generalizing position with
  | nil => exact pure []
  | cons value rest ih =>
    exact bind (h _ value) fun first _ => bind (ih (position + 1)) fun others _ => pure _

/-- A text that cannot be read is a fault of the specification. -/
theorem Field.faultsAre_text? : FaultsAre Fault.Inside (text? members field place) := by
  unfold text?
  split
  · exact pure none
  · split <;> exact pure _
  · exact throw trivial

/-- So is an entry of a list that is not a text. -/
theorem Field.faultsAre_entry (value : Json) :
    FaultsAre Fault.Inside (entry field place value) := by
  unfold entry
  split
  · exact pure _
  · exact throw trivial

/-- So is a list of texts that cannot be read. -/
theorem Field.faultsAre_texts : FaultsAre Fault.Inside (texts members field place) := by
  unfold texts
  split
  · exact pure []
  · exact pure _
  · exact faultsAre_items _ (faultsAre_entry · field) 0 _
  · exact throw trivial

/-- So is a flag that cannot be read. -/
theorem Field.faultsAre_flag : FaultsAre Fault.Inside (flag members field place) := by
  unfold flag
  split
  · exact pure false
  · exact pure _
  · exact throw trivial

/-- A clause that cannot be read is a fault of the specification. -/
theorem Clause.faultsAre_read (value : Json) : FaultsAre Fault.Inside (read place value) := by
  unfold read
  split
  · exact pure _
  · exact throw trivial

/-- So are clauses that cannot be read. -/
theorem Clause.faultsAre_readAll (value : Json) :
    FaultsAre Fault.Inside (readAll place value) := by
  unfold readAll
  split
  · exact pure []
  · exact Field.faultsAre_items place faultsAre_read 0 _
  · exact throw trivial

/-- So is a limit that cannot be read. -/
theorem TermsLimit.faultsAre_read : FaultsAre Fault.Inside (read members field place) := by
  unfold read
  split
  · exact pure _
  · split
    · exact pure _
    · exact throw trivial
  · exact throw trivial

/-- An endpoint without a path is a fault of the specification. -/
theorem Endpoint.faultsAre_readPath : FaultsAre Fault.Inside (readPath members place) := by
  refine bind (Field.faultsAre_text? place members "path") fun path _ => ?_
  cases path with
  | none => exact throw trivial
  | some path => exact pure path

/-- So is an endpoint that cannot be read. -/
theorem Endpoint.faultsAre_read (value : Json) : FaultsAre Fault.Inside (read place value) := by
  unfold read
  split
  · split
    · exact throw trivial
    · refine bind (faultsAre_readPath place _) fun path _ => ?_
      refine bind (Field.faultsAre_texts place _ "indices") fun indices _ => ?_
      refine bind (Field.faultsAre_texts place _ "types") fun types _ => ?_
      refine bind (Field.faultsAre_text? place _ "orderBy") fun orderBy _ => ?_
      refine bind (TermsLimit.faultsAre_read place _ "maxTermsPerShard") fun limit _ => ?_
      refine bind (Field.faultsAre_text? place _ "termsEncoding") fun encoding _ => ?_
      exact bind (Clause.faultsAre_readAll _ _) fun queries _ => pure _
  · exact throw trivial

/-- So is a pair of endpoints that cannot be read. -/
theorem Endpoint.faultsAre_readPair (value : Json) :
    FaultsAre Fault.Inside (readPair place value) := by
  unfold readPair
  split
  · exact bind (faultsAre_read _ _) fun first _ => bind (faultsAre_read _ _) fun second _ => pure _
  · exact throw trivial

/-- A relation that cannot be read is a fault of the specification. -/
theorem Edge.faultsAre_read (value : Json) : FaultsAre Fault.Inside (read place value) := by
  unfold read
  split
  · exact bind (Endpoint.faultsAre_readPair place _) fun pair _ => pure _
  · split
    · exact throw trivial
    · refine bind (Field.faultsAre_flag place _ "negate") fun negate _ => ?_
      exact bind (Endpoint.faultsAre_readPair _ _) fun pair _ => pure _
  · exact throw trivial

/-- A relation of an index with itself is a fault of the specification. -/
theorem Graph.faultsAre_check (graph : Graph) : FaultsAre Fault.Inside graph.check := by
  refine forM fun edge _ => ?_
  split
  · exact throw trivial
  · exact pure ()

/-- So are clauses for the focus. -/
theorem Graph.faultsAre_checkFocus (graph : Graph) : FaultsAre Fault.Inside graph.checkFocus := by
  unfold checkFocus
  split
  · exact throw trivial
  · exact pure ()

/-- A graph without a focus is a fault of the specification. -/
theorem Graph.faultsAre_readFocus : FaultsAre Fault.Inside (readFocus members place) := by
  unfold readFocus
  split
  · exact throw trivial
  · exact pure _
  · exact throw trivial

/-- So are relations that cannot be read. -/
theorem Graph.faultsAre_readRelations : FaultsAre Fault.Inside (readRelations members place) := by
  unfold readRelations
  split
  · exact throw trivial
  · exact Field.faultsAre_items _ Edge.faultsAre_read 0 _
  · exact throw trivial

/-- So are clauses by index that cannot be read. -/
theorem Graph.faultsAre_readQueries : FaultsAre Fault.Inside (readQueries members place) := by
  unfold readQueries
  split
  · exact pure []
  · exact mapM fun entry _ => bind (Clause.faultsAre_readAll _ _) fun clauses _ => pure _
  · exact throw trivial

/-- So is a graph that cannot be read. -/
theorem Graph.faultsAre_read (value : Json) : FaultsAre Fault.Inside (read place value) := by
  unfold read
  split
  · refine bind (faultsAre_readFocus place _) fun focus _ => ?_
    refine bind (faultsAre_readRelations place _) fun relations _ => ?_
    refine bind (faultsAre_readQueries place _) fun queries _ => ?_
    exact bind (faultsAre_check _) fun _ _ => pure _
  · exact throw trivial

/-- A relation of a chain that cannot be read is a fault of the specification. -/
theorem Hop.faultsAre_read : FaultsAre Fault.Inside (read members place) := by
  unfold read
  split
  · exact throw trivial
  · refine bind (Endpoint.faultsAre_readPair _ _) fun pair _ => ?_
    exact bind (Field.faultsAre_flag place _ "negate") fun negate _ => pure _

mutual

/-- A chain that cannot be read is a fault of the specification. -/
theorem Chain.faultsAre_readShape (place : Pointer) (value : Json) :
    FaultsAre Fault.Inside (Chain.readShape place value) := by
  cases value with
  | array steps => exact bind (Step.faultsAre_readAll place 0 steps) fun steps _ => pure _
  | null | bool _ | number _ | string _ | object _ => exact throw trivial

/-- So are steps that cannot be read. -/
theorem Step.faultsAre_readAll (place : Pointer) (position : Nat) (values : List Json) :
    FaultsAre Fault.Inside (Step.readAll place position values) := by
  cases values with
  | nil => exact pure []
  | cons value rest =>
    rw [Step.readAll]
    refine bind (Step.faultsAre_read (place.index position) value) fun first _ => ?_
    exact bind (Step.faultsAre_readAll place (position + 1) rest) fun others _ => pure _

/-- So is a step that cannot be read. -/
theorem Step.faultsAre_read (place : Pointer) (value : Json) :
    FaultsAre Fault.Inside (Step.read place value) := by
  cases value with
  | object members =>
    rw [Step.read]
    cases hgroup : Step.readGroup? place members with
    | some group => exact Step.faultsAre_readGroup? place members hgroup
    | none => exact bind (Hop.faultsAre_read place members) fun hop _ => pure _
  | null | bool _ | number _ | string _ | array _ => exact throw trivial

/-- So is a group that cannot be read. -/
theorem Step.faultsAre_readGroup? (place : Pointer) (members : List (String × Json))
    {group : Except Fault Step} (h : Step.readGroup? place members = some group) :
    FaultsAre Fault.Inside group := by
  match members with
  | [] => cases h
  | (field, value) :: rest =>
    rw [Step.readGroup?] at h
    split at h
    · cases h
      exact bind (Chain.faultsAre_readBranches (place.key "group") value) fun branches _ => pure _
    · exact Step.faultsAre_readGroup? place rest h

/-- So are branches that are not an array. -/
theorem Chain.faultsAre_readBranches (place : Pointer) (value : Json) :
    FaultsAre Fault.Inside (Chain.readBranches place value) := by
  cases value with
  | array branches => exact Chain.faultsAre_readShapes place 0 branches
  | null | bool _ | number _ | string _ | object _ => exact throw trivial

/-- So are branches that cannot be read. -/
theorem Chain.faultsAre_readShapes (place : Pointer) (position : Nat) (values : List Json) :
    FaultsAre Fault.Inside (Chain.readShapes place position values) := by
  cases values with
  | nil => exact pure []
  | cons value rest =>
    rw [Chain.readShapes]
    refine bind (Chain.faultsAre_readShape (place.index position) value) fun first _ => ?_
    exact bind (Chain.faultsAre_readShapes place (position + 1) rest) fun others _ => pure _

end

/-- A group after the first step is a fault of the specification. -/
theorem Step.faultsAre_checkLater (step : Step) : FaultsAre Fault.Inside step.checkLater := by
  cases step with
  | relation hop => exact pure ()
  | group origin branches => exact throw trivial

/-- So is a last step that cannot be applied to the documents being searched. -/
theorem Step.faultsAre_checkLast (step : Step) : FaultsAre Fault.Inside step.checkLast := by
  cases step with
  | relation hop =>
    unfold checkLast
    dsimp only
    split
    · exact pure ()
    · exact throw trivial
  | group origin branches => exact throw trivial

mutual

/-- The order of the steps is a matter of the specification. -/
theorem Chain.faultsAre_check (chain : Chain) : FaultsAre Fault.Inside chain.check := by
  match chain with
  | ⟨origin, []⟩ => exact throw trivial
  | ⟨_, first :: rest⟩ =>
    rw [Chain.check]
    refine bind (Step.faultsAre_checkFirst rest.isEmpty first) fun _ _ => ?_
    exact bind (forM fun step _ => step.faultsAre_checkLater) fun _ _ => Step.faultsAre_checkLast _

/-- So is whether a chain may start with a group. -/
theorem Step.faultsAre_checkFirst (alone : Bool) (step : Step) :
    FaultsAre Fault.Inside (step.checkFirst alone) := by
  cases step with
  | relation hop => exact pure ()
  | group origin branches =>
    rw [Step.checkFirst]
    split
    · exact throw trivial
    · split
      · exact throw trivial
      · exact Chain.faultsAre_checkAll branches

/-- So is the order of the steps in branches. -/
theorem Chain.faultsAre_checkAll (branches : List Chain) :
    FaultsAre Fault.Inside (Chain.checkAll branches) := by
  cases branches with
  | nil => exact pure ()
  | cons branch rest =>
    exact bind (Chain.faultsAre_check branch) fun _ _ => Chain.faultsAre_checkAll rest

end

/-- A chain that is not in order is a fault of the specification. -/
theorem Chain.faultsAre_read (value : Json) : FaultsAre Fault.Inside (read place value) := by
  refine bind (faultsAre_readShape place value) fun chain _ => ?_
  exact bind chain.faultsAre_check fun _ _ => pure _

/-- Reading a specification finds fault with the specification only. -/
theorem Specification.faultsAre_read (label : Label) (value : Json) :
    FaultsAre Fault.Inside (read label place value) := by
  cases label with
  | joinSet => exact bind (Graph.faultsAre_read place value) fun graph _ => pure _
  | joinSequence => exact bind (Chain.faultsAre_read place value) fun chain _ => pure _

end Reading

section Compiling

open FaultsAre

variable (sentinel : String)

namespace Graph

variable {graph : Graph} {sentinel}

/-- Joining along a relation can only fail onward. -/
theorem faultsAre_joinAlong {kind : Fault → Prop} {onward : Onward}
    (h : ∀ index visited, FaultsAre kind (onward index visited).result) (walk : Walk)
    (edge : Edge) (side : Orientation) :
    FaultsAre kind (graph.joinAlong sentinel onward walk edge side).result := by
  unfold joinAlong
  simp only [Traced.result_bind, Join.result_build]
  cases side.far.index? with
  | none => exact ok _
  | some other =>
    simp only [Traced.result_bind, Join.result_attachClauses]
    change FaultsAre kind (if other ∈ walk.entered then _ else _ : Compilation Walk).result
    split
    · exact ok _
    · simp only [Traced.result_bind, Join.result_attachJoins]
      exact bind (h _ _) fun walked _ => ok _

/-- Passing a relation fails onward, or where nothing more may be nested. -/
theorem tooDeep_pass {onward : Option Onward}
    (h : ∀ way, onward = some way →
      ∀ index visited, FaultsAre Fault.TooDeep (way index visited).result)
    (index : String) (walk : Walk) (edge : Edge) :
    FaultsAre Fault.TooDeep (graph.pass sentinel onward index walk edge).result := by
  unfold pass
  cases edge.orient? index with
  | none => exact ok _
  | some side =>
    dsimp only
    split
    · exact ok _
    · cases onward with
      | none => exact throw ⟨_, rfl⟩
      | some way => exact faultsAre_joinAlong (h way rfl) walk edge side

/-- A walk can only fail because joins nest too deep. -/
theorem tooDeep_walkFrom (graph : Graph) (levels : Nat) (index : String)
    (visited : List String) :
    FaultsAre Fault.TooDeep (graph.walkFrom sentinel levels index visited).result := by
  have hscan {onward : Option Onward}
      (h : ∀ way, onward = some way →
        ∀ index visited, FaultsAre Fault.TooDeep (way index visited).result)
      (index : String) (visited : List String) :
      FaultsAre Fault.TooDeep (graph.scan sentinel onward index visited).result := by
    rw [result_scan]
    refine bind (foldlM (fun _ => True) ?_ (fun _ _ _ _ _ _ => trivial) trivial) fun walk _ => ok _
    exact fun walk _ edge _ => tooDeep_pass h index walk edge
  induction levels generalizing index visited with
  | zero => exact hscan (fun way h => by cases h) index visited
  | succ levels ih =>
    refine hscan (fun way h => ?_) index visited
    cases h
    exact ih

end Graph

/-- What has a limit can only fail because joins nest too deep. -/
theorem Limited.tooDeep {α : Type} {limit depth : Nat} {value : α} {result : Except Fault α}
    (h : Limited limit depth value result) : FaultsAre Fault.TooDeep result := by
  by_cases hdepth : depth ≤ limit
  · rw [h.within hdepth]
    exact FaultsAre.ok value
  · obtain ⟨place, hresult⟩ := h.beyond (Nat.lt_of_not_le hdepth)
    rw [hresult]
    exact throw ⟨place, rfl⟩

namespace Specification

/-- A specification that has been read has passed the check that belongs to reading. -/
theorem check_eq_ok_of_read {label : Label} {place : Pointer} {value : Json}
    {specification : Specification} (h : read label place value = .ok specification) :
    specification.check = .ok () := by
  cases label with
  | joinSet =>
    obtain ⟨graph, hgraph, h⟩ := bind_eq_ok h
    cases h
    unfold Graph.read at hgraph
    split at hgraph
    · obtain ⟨focus, -, hgraph⟩ := bind_eq_ok hgraph
      obtain ⟨relations, -, hgraph⟩ := bind_eq_ok hgraph
      obtain ⟨queries, -, hgraph⟩ := bind_eq_ok hgraph
      obtain ⟨_, hcheck, hgraph⟩ := bind_eq_ok hgraph
      cases hgraph
      exact hcheck
    · cases hgraph
  | joinSequence =>
    obtain ⟨chain, hchain, h⟩ := bind_eq_ok h
    cases h
    obtain ⟨shape, -, hchain⟩ := bind_eq_ok hchain
    obtain ⟨_, hcheck, hchain⟩ := bind_eq_ok hchain
    cases hchain
    exact hcheck

/-- Compiling a specification checks it, checks the clauses of the focus, and can then only fail
because joins nest too deep. -/
theorem exists_result_compile (specification : Specification) :
    ∃ rest : Except Fault (List Json),
      (specification.compile sentinel).result =
        (specification.check >>= fun _ => specification.checkFocus >>= fun _ => rest) ∧
      (specification.check = .ok () → FaultsAre Fault.TooDeep rest) := by
  cases specification with
  | graph graph =>
    refine ⟨_, graph.result_compile sentinel, fun _ => ?_⟩
    exact bind (graph.tooDeep_walkFrom _ _ _) fun walked _ => ok _
  | chain chain =>
    refine ⟨(chain.tier sentinel).result >>= fun tier => .ok (Join.clauses tier.joins), ?_,
      fun hcheck => bind ((chain.limited_tier sentinel hcheck).tooDeep) fun tier _ => ok _⟩
    change (chain.compile sentinel).result = _
    rw [Chain.compile, Traced.result_bind, Chain.result_joins, bind_assoc]
    simp only [bind_assoc]
    rfl

/-- Compiling a specification finds fault with the specification only. -/
theorem faultsAre_compile (specification : Specification) :
    FaultsAre Fault.Inside (specification.compile sentinel).result := by
  obtain ⟨rest, hresult, hrest⟩ := specification.exists_result_compile sentinel
  rw [hresult]
  have hcheck : FaultsAre Fault.Inside specification.check := by
    cases specification with
    | graph graph => exact graph.faultsAre_check
    | chain chain => exact chain.faultsAre_check
  have hfocus : FaultsAre Fault.Inside specification.checkFocus := by
    cases specification with
    | graph graph => exact graph.faultsAre_checkFocus
    | chain chain => exact ok ()
  exact bind hcheck fun _ hchecked => bind hfocus fun _ _ =>
    (hrest hchecked).mono fun _ => Fault.TooDeep.inside

end Specification

end Compiling

end Semijoin
