import Semijoin.Specification

/-!
# Moving a specification to another place

A specification keeps the place of each of its parts, for the sake of faults and events. When
the value of a specification stands under a longer pointer, reading it gives the same
specification with longer places, or the same fault at a longer place.
-/

namespace Semijoin

/-- A fault seen from further outside: the base stands before its place. -/
def Fault.under (base : Pointer) : Fault → Fault
  | .missingField field place => .missingField field (base ++ place)
  | .malformed cause place => .malformed cause (base ++ place)
  | .unknownField field place => .unknownField field (base ++ place)
  | .rootFilters index => .rootFilters index
  | .rootQueries place => .rootQueries (base ++ place)
  | .selfRelation index place => .selfRelation index (base ++ place)
  | .crowdedHost label place => .crowdedHost label (base ++ place)

/-- A relation seen from further outside. -/
def Edge.under (base : Pointer) (edge : Edge) : Edge :=
  { edge with origin := base ++ edge.origin }

/-- A join graph seen from further outside. -/
def Graph.under (base : Pointer) (graph : Graph) : Graph :=
  { graph with relations := graph.relations.map (Edge.under base) }

/-- A step between two endpoints seen from further outside. -/
def Hop.under (base : Pointer) (hop : Hop) : Hop :=
  { hop with origin := base ++ hop.origin }

mutual

/-- A chain seen from further outside. -/
def Chain.under (base : Pointer) : Chain → Chain
  | ⟨origin, steps⟩ => ⟨base ++ origin, Step.allUnder base steps⟩

/-- The steps of a chain seen from further outside. -/
def Step.allUnder (base : Pointer) : List Step → List Step
  | [] => []
  | step :: rest => step.under base :: Step.allUnder base rest

/-- A step seen from further outside. -/
def Step.under (base : Pointer) : Step → Step
  | .relation hop => .relation (hop.under base)
  | .group origin branches => .group (base ++ origin) (Chain.allUnder base branches)

/-- The branches of a group seen from further outside. -/
def Chain.allUnder (base : Pointer) : List Chain → List Chain
  | [] => []
  | branch :: rest => branch.under base :: Chain.allUnder base rest

end

/-- A specification seen from further outside. -/
def Specification.under (base : Pointer) : Specification → Specification
  | .graph g => .graph (g.under base)
  | .chain c => .chain (c.under base)

/-- An outcome seen from further outside: `f` moves the value, and a fault moves its place. -/
def Fault.moved {α : Type} (base : Pointer) (f : α → α) : Except Fault α → Except Fault α
  | .ok value => .ok (f value)
  | .error fault => .error (fault.under base)

namespace Fault

variable {α β : Type} (base : Pointer)

/-- A plain value is moved by itself. -/
@[simp] theorem moved_pure (f : α → α) (value : α) :
    moved base f (pure value) = pure (f value) := rfl

/-- A thrown fault is moved with its place. -/
@[simp] theorem moved_throw (f : α → α) (fault : Fault) :
    moved base f (throw fault) = throw (fault.under base) := rfl

/-- Two steps move as one when the second moves for every value of the first. -/
theorem moved_bind {f : α → α} {g : β → β} (first : Except Fault α)
    {next next' : α → Except Fault β}
    (h : ∀ value, next' (f value) = moved base g (next value)) :
    moved base f first >>= next' = moved base g (first >>= next) := by
  cases first with
  | ok value => exact h value
  | error fault => rfl

/-- An outcome without places of its own moves only its faults. -/
theorem moved_bind_id {g : β → β} (first : Except Fault α) {next next' : α → Except Fault β}
    (h : ∀ value, next' value = moved base g (next value)) :
    moved base id first >>= next' = moved base g (first >>= next) :=
  moved_bind base first h

end Fault

open Fault (moved)

namespace Pointer

variable (base place : Pointer)

/-- A member of a moved value is the moved member. -/
theorem key_append (name : String) : key (base ++ place) name = base ++ key place name :=
  List.append_assoc _ _ _

/-- An element of a moved value is the moved element. -/
theorem index_append (position : Nat) :
    index (base ++ place) position = base ++ index place position :=
  List.append_assoc _ _ _

end Pointer

open Pointer (key_append index_append)

section Reading

variable (base place : Pointer)

/-- Reading elements moves with the reader of one element. -/
theorem Field.items_under {α : Type} {f : α → α} {read : Pointer → Json → Except Fault α}
    (h : ∀ place value, read (base ++ place) value = moved base f (read place value))
    (position : Nat) (values : List Json) :
    items read (base ++ place) position values =
      moved base (List.map f) (items read place position values) := by
  induction values generalizing position with
  | nil => rfl
  | cons value rest ih =>
    simp only [items, index_append, h, ih]
    exact Fault.moved_bind base _ fun first => Fault.moved_bind base _ fun others => rfl

/-- An outcome that keeps no place is moved by its faults alone. -/
theorem Field.items_under_id {α : Type} {read : Pointer → Json → Except Fault α}
    (h : ∀ place value, read (base ++ place) value = moved base id (read place value))
    (position : Nat) (values : List Json) :
    items read (base ++ place) position values =
      moved base id (items read place position values) := by
  simpa using items_under base place h position values

/-- Reading a text moves with its object. -/
theorem Field.text?_under (members : List (String × Json)) (field : String) :
    text? members field (base ++ place) = moved base id (text? members field place) := by
  unfold text?
  split <;> simp [Fault.under, key_append]

/-- Reading an element of a list of texts moves with it. -/
theorem Field.entry_under (field : String) (value : Json) :
    entry field (base ++ place) value = moved base id (entry field place value) := by
  unfold entry
  split <;> simp [Fault.under]

/-- Reading a list of texts moves with its object. -/
theorem Field.texts_under (members : List (String × Json)) (field : String) :
    texts members field (base ++ place) = moved base id (texts members field place) := by
  unfold texts
  split
  · rfl
  · rfl
  · rw [key_append]
    exact items_under_id base _ (fun place value => entry_under base place field value) 0 _
  · simp [Fault.under, key_append]

/-- Reading a truth value moves with its object. -/
theorem Field.flag_under (members : List (String × Json)) (field : String) :
    flag members field (base ++ place) = moved base id (flag members field place) := by
  unfold flag
  split <;> simp [Fault.under, key_append]

/-- Reading a clause moves with it. -/
theorem Clause.read_under (value : Json) :
    read (base ++ place) value = moved base id (read place value) := by
  unfold read
  split <;> simp [Fault.under]

/-- Reading clauses moves with their array. -/
theorem Clause.readAll_under (value : Json) :
    readAll (base ++ place) value = moved base id (readAll place value) := by
  unfold readAll
  split
  · rfl
  · exact Field.items_under_id base place (fun place value => read_under base place value) 0 _
  · simp [Fault.under]

/-- Reading a limit moves with its object. -/
theorem TermsLimit.read_under (members : List (String × Json)) (field : String) :
    read members field (base ++ place) = moved base id (read members field place) := by
  unfold read
  split
  · rfl
  · split <;> simp [Fault.under, key_append]
  · simp [Fault.under, key_append]

/-- Reading the field of an endpoint moves with the endpoint. -/
theorem Endpoint.readPath_under (members : List (String × Json)) :
    readPath members (base ++ place) = moved base id (readPath members place) := by
  unfold readPath
  rw [Field.text?_under]
  refine Fault.moved_bind_id base _ fun path => ?_
  cases path <;> rfl

/-- Reading an endpoint moves with it. -/
theorem Endpoint.read_under (value : Json) :
    read (base ++ place) value = moved base id (read place value) := by
  unfold read
  split
  · rename_i members
    simp only [readPath_under, Field.texts_under, Field.text?_under, TermsLimit.read_under,
      key_append, Clause.readAll_under]
    split
    · rfl
    · refine Fault.moved_bind_id base _ fun path => Fault.moved_bind_id base _ fun indices => ?_
      refine Fault.moved_bind_id base _ fun types => Fault.moved_bind_id base _ fun orderBy => ?_
      refine Fault.moved_bind_id base _ fun limit => Fault.moved_bind_id base _ fun encoding => ?_
      exact Fault.moved_bind_id base _ fun queries => rfl
  · rfl

/-- Reading a pair of endpoints moves with it. -/
theorem Endpoint.readPair_under (value : Json) :
    readPair (base ++ place) value = moved base id (readPair place value) := by
  unfold readPair
  split
  · simp only [index_append, Endpoint.read_under]
    exact Fault.moved_bind_id base _ fun first => Fault.moved_bind_id base _ fun second => rfl
  · rfl

/-- Reading a relation moves with it. -/
theorem Edge.read_under (value : Json) :
    read (base ++ place) value = moved base (under base) (read place value) := by
  unfold read
  split
  · rw [Endpoint.readPair_under]
    exact Fault.moved_bind_id base _ fun pair => rfl
  · split
    · rfl
    · simp only [Field.flag_under, key_append, Endpoint.readPair_under]
      exact Fault.moved_bind_id base _ fun negate => Fault.moved_bind_id base _ fun pair => rfl
  · rfl

/-- A relation that joins an index with itself does so in every place. -/
theorem Edge.loop?_under (edge : Edge) : (edge.under base).loop? = edge.loop? := rfl

/-- Reading the focus moves with the graph. -/
theorem Graph.readFocus_under (members : List (String × Json)) :
    readFocus members (base ++ place) = moved base id (readFocus members place) := by
  unfold readFocus
  split <;> simp [Fault.under, key_append]

/-- Reading the relations moves with the graph. -/
theorem Graph.readRelations_under (members : List (String × Json)) :
    readRelations members (base ++ place) =
      moved base (List.map (Edge.under base)) (readRelations members place) := by
  unfold readRelations
  split
  · rfl
  · rw [key_append]
    exact Field.items_under base _ (fun place value => Edge.read_under base place value) 0 _
  · simp [Fault.under, key_append]

/-- Going through a list moves with what is done for one element. -/
theorem Fault.mapM_moved {α β : Type} {f f' : α → Except Fault β} (values : List α)
    (h : ∀ value, f' value = moved base id (f value)) :
    values.mapM f' = moved base id (values.mapM f) := by
  induction values with
  | nil => rfl
  | cons value rest ih =>
    simp only [List.mapM_cons, h, ih]
    exact moved_bind_id base _ fun first => moved_bind_id base _ fun others => rfl

/-- Reading the clauses by index moves with the graph. -/
theorem Graph.readQueries_under (members : List (String × Json)) :
    readQueries members (base ++ place) = moved base id (readQueries members place) := by
  unfold readQueries
  split
  · rfl
  · refine Fault.mapM_moved base _ fun entry => ?_
    simp only [key_append, Clause.readAll_under]
    exact Fault.moved_bind_id base _ fun clauses => rfl
  · simp [Fault.under, key_append]

/-- Checking a graph moves with it. -/
theorem Graph.check_under (graph : Graph) :
    (graph.under base).check = moved base id graph.check := by
  unfold check
  simp only [under]
  induction graph.relations with
  | nil => rfl
  | cons edge rest ih =>
    rw [List.map_cons, List.forM_eq_forM, List.forM_cons, List.forM_cons,
      Edge.loop?_under]
    cases edge.loop? with
    | none => exact ih
    | some index => rfl

/-- Reading a graph moves with its value. -/
theorem Graph.read_under (value : Json) :
    read (base ++ place) value = moved base (under base) (read place value) := by
  unfold read
  split
  · rw [readFocus_under, readRelations_under, readQueries_under]
    refine Fault.moved_bind_id base _ fun focus => Fault.moved_bind base _ fun relations => ?_
    refine Fault.moved_bind_id base _ fun queries => ?_
    have hcheck := check_under base { focus, relations, queries }
    unfold under at hcheck
    simp only [hcheck]
    exact Fault.moved_bind_id base _ fun _ => rfl
  · rfl

/-- Reading a step that is a relation moves with it. -/
theorem Hop.read_under (members : List (String × Json)) :
    read members (base ++ place) = moved base (under base) (read members place) := by
  unfold read
  split
  · rfl
  · simp only [Field.flag_under, key_append, Endpoint.readPair_under]
    exact Fault.moved_bind_id base _ fun pair => Fault.moved_bind_id base _ fun negate => rfl

end Reading

section ReadingChains

variable (base : Pointer)

mutual

/-- The shape of a chain moves with its value. -/
theorem Chain.readShape_under (place : Pointer) (value : Json) :
    Chain.readShape (base ++ place) value =
      moved base (Chain.under base) (Chain.readShape place value) := by
  cases value with
  | array steps =>
    simp only [Chain.readShape]
    rw [Step.readAll_under place 0 steps]
    exact Fault.moved_bind base _ fun steps => rfl
  | _ => rfl

/-- The steps of a chain move with their values. -/
theorem Step.readAll_under (place : Pointer) (position : Nat) (values : List Json) :
    Step.readAll (base ++ place) position values =
      moved base (Step.allUnder base) (Step.readAll place position values) := by
  cases values with
  | nil => rfl
  | cons value rest =>
    simp only [Step.readAll, index_append]
    rw [Step.read_under (place.index position) value, Step.readAll_under place (position + 1) rest]
    exact Fault.moved_bind base _ fun first => Fault.moved_bind base _ fun others => rfl

/-- A step moves with its value. -/
theorem Step.read_under (place : Pointer) (value : Json) :
    Step.read (base ++ place) value = moved base (Step.under base) (Step.read place value) := by
  cases value with
  | object members =>
    simp only [Step.read]
    rw [Step.readGroup?_under place members]
    cases Step.readGroup? place members with
    | none =>
      simp only [Option.map_none, Hop.read_under]
      exact Fault.moved_bind base _ fun hop => rfl
    | some group => rfl
  | _ => rfl

/-- A group moves with its object. -/
theorem Step.readGroup?_under (place : Pointer) (members : List (String × Json)) :
    Step.readGroup? (base ++ place) members =
      (Step.readGroup? place members).map (moved base (Step.under base)) := by
  match members with
  | [] => rfl
  | (field, value) :: rest =>
    simp only [Step.readGroup?]
    split
    · rw [key_append, Chain.readBranches_under (place.key "group") value]
      exact congrArg some (Fault.moved_bind base _ fun branches => rfl)
    · exact Step.readGroup?_under place rest

/-- The branches of a group move with their value. -/
theorem Chain.readBranches_under (place : Pointer) (value : Json) :
    Chain.readBranches (base ++ place) value =
      moved base (Chain.allUnder base) (Chain.readBranches place value) := by
  cases value with
  | array branches => exact Chain.readShapes_under place 0 branches
  | _ => rfl

/-- Branches move with their values. -/
theorem Chain.readShapes_under (place : Pointer) (position : Nat) (values : List Json) :
    Chain.readShapes (base ++ place) position values =
      moved base (Chain.allUnder base) (Chain.readShapes place position values) := by
  cases values with
  | nil => rfl
  | cons value rest =>
    simp only [Chain.readShapes, index_append]
    rw [Chain.readShape_under (place.index position) value,
      Chain.readShapes_under place (position + 1) rest]
    exact Fault.moved_bind base _ fun first => Fault.moved_bind base _ fun others => rfl

end

/-- The steps of a moved chain are the moved steps. -/
theorem Step.allUnder_eq_map (steps : List Step) :
    allUnder base steps = steps.map (under base) := by
  induction steps with
  | nil => rfl
  | cons step rest ih => simp only [allUnder, ih, List.map_cons]

/-- The check of a step that is not the first moves with it. -/
theorem Step.checkLater_under (step : Step) :
    (step.under base).checkLater = moved base id step.checkLater := by
  cases step <;> simp [under, checkLater, Fault.under]

/-- The check of a last step moves with it. -/
theorem Step.checkLast_under (step : Step) :
    (step.under base).checkLast = moved base id step.checkLast := by
  cases step with
  | relation hop =>
    simp only [under, checkLast, Hop.under, key_append, index_append]
    split <;> simp [Fault.under]
  | group origin branches => simp [under, checkLast, Fault.under]

/-- The checks of the later steps move with them. -/
theorem Step.forM_checkLater_under (steps : List Step) :
    (steps.map (under base)).forM checkLater = moved base id (steps.forM checkLater) := by
  induction steps with
  | nil => rfl
  | cons step rest ih =>
    rw [List.map_cons, List.forM_eq_forM, List.forM_cons, List.forM_cons,
      checkLater_under]
    exact Fault.moved_bind_id base _ fun _ => ih

mutual

/-- Checking a chain moves with it. -/
theorem Chain.check_under (chain : Chain) :
    (chain.under base).check = moved base id chain.check := by
  match chain with
  | ⟨origin, []⟩ => rfl
  | ⟨origin, first :: rest⟩ =>
    have hlast : ((rest.map (Step.under base)).getLastD (first.under base)) =
        (rest.getLastD first).under base := by
      cases hlast : rest.getLast? <;> simp [List.getLastD_eq_getLast?, hlast]
    simp only [Chain.under, Step.allUnder, Step.allUnder_eq_map, Chain.check, List.isEmpty_map,
      hlast, Step.checkLast_under, Step.forM_checkLater_under]
    rw [Step.checkFirst_under rest.isEmpty first]
    exact Fault.moved_bind_id base _ fun _ => Fault.moved_bind_id base _ fun _ => rfl

/-- The check of a first step moves with it. -/
theorem Step.checkFirst_under (alone : Bool) (step : Step) :
    (step.under base).checkFirst alone = moved base id (step.checkFirst alone) := by
  cases step with
  | relation hop => rfl
  | group origin branches =>
    have hempty : (Chain.allUnder base branches).isEmpty = branches.isEmpty := by
      cases branches <;> rfl
    simp only [Step.under, Step.checkFirst, hempty]
    split
    · rfl
    · split
      · rfl
      · exact Chain.checkAll_under branches

/-- The checks of branches move with them. -/
theorem Chain.checkAll_under (branches : List Chain) :
    Chain.checkAll (Chain.allUnder base branches) = moved base id (Chain.checkAll branches) := by
  cases branches with
  | nil => rfl
  | cons branch rest =>
    simp only [Chain.allUnder, Chain.checkAll]
    rw [Chain.check_under branch, Chain.checkAll_under rest]
    exact Fault.moved_bind_id base _ fun _ => rfl

end

/-- Reading a chain moves with its value. -/
theorem Chain.read_under (place : Pointer) (value : Json) :
    read (base ++ place) value = moved base (under base) (read place value) := by
  unfold read
  rw [readShape_under]
  refine Fault.moved_bind base _ fun chain => ?_
  rw [check_under]
  exact Fault.moved_bind_id base _ fun _ => rfl

/-- Reading a value that stands under a longer pointer gives the same specification, or the
same fault, seen from further outside. -/
theorem Specification.read_under (label : Label) (place : Pointer) (value : Json) :
    read label (base ++ place) value = moved base (under base) (read label place value) := by
  cases label with
  | joinSet =>
    simp only [read, Graph.read_under]
    exact Fault.moved_bind base _ fun g => rfl
  | joinSequence =>
    simp only [read, Chain.read_under]
    exact Fault.moved_bind base _ fun c => rfl

end ReadingChains

end Semijoin
