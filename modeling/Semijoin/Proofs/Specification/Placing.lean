import Semijoin.Proofs.Join.Building
import Semijoin.Proofs.Specification.Relocation

/-!
# Compiling a specification in another place

A specification that stands under a longer pointer is compiled in the same steps. They report the
same events and build the same joins, or fail in the same way. The longer pointer shows only in the
places that the events and the fault name.
-/

namespace Semijoin

/-- An event seen from further outside: the base stands before the place that it names. -/
def Event.under (base : Pointer) : Event → Event
  | .relationSkipped near far relation => .relationSkipped near far (base ++ relation)
  | .queriesIgnored step => .queriesIgnored (base ++ step)
  | .chainCompiled origin steps depth joins => .chainCompiled (base ++ origin) steps depth joins
  | event => event

/-- A computation seen from further outside: `f` moves its value, and its events and its fault move
their places. -/
def Traced.moved {α : Type} (base : Pointer) (f : α → α) (computation : Compilation α) :
    Compilation α :=
  ⟨computation.events.map (Event.under base), Fault.moved base f computation.result⟩

namespace Traced

variable {α β : Type} (base : Pointer)

/-- Two parts move as one when the second moves for every value of the first. -/
theorem moved_bind {f : α → α} {g : β → β} (first : Compilation α)
    {next next' : α → Compilation β} (h : ∀ value, next' (f value) = moved base g (next value)) :
    moved base f first >>= next' = moved base g (first >>= next) := by
  cases hresult : first.result with
  | ok value =>
    have hmoved : (moved base f first).result = .ok (f value) := by rw [moved, hresult]; rfl
    rw [bind_of_ok hresult, bind_of_ok hmoved, h]
    simp only [moved, List.map_append]
  | error fault =>
    have hmoved : (moved base f first).result = .error (fault.under base) := by
      rw [moved, hresult]
      rfl
    rw [bind_of_error hresult, bind_of_error hmoved]
    rfl

/-- A computation of a value without places moves its events and its fault only. -/
theorem moved_bind_id {g : β → β} (first : Compilation α) {next next' : α → Compilation β}
    (h : ∀ value, next' value = moved base g (next value)) :
    moved base id first >>= next' = moved base g (first >>= next) :=
  moved_bind base first h

/-- A part that names no place may come first in any place. -/
theorem bind_of_placeless {g : β → β} {first : Compilation α} {next next' : α → Compilation β}
    (hfirst : moved base id first = first) (h : ∀ value, next' value = moved base g (next value)) :
    first >>= next' = moved base g (first >>= next) := by
  rw [← moved_bind_id base first h, hfirst]

/-- Going through a moved list moves with what is done for one element. -/
theorem foldlM_moved {σ : Type} {f : α → α} {step step' : σ → α → Compilation σ}
    (h : ∀ state value, step' state (f value) = moved base id (step state value))
    (values : List α) (state : σ) :
    (values.map f).foldlM step' state = moved base id (values.foldlM step state) := by
  induction values generalizing state with
  | nil => rfl
  | cons value rest ih =>
    simp only [List.map_cons, List.foldlM_cons, h]
    exact moved_bind_id base _ ih

end Traced

open Traced (moved moved_bind moved_bind_id bind_of_placeless)

section Compiling

variable (base : Pointer) (sentinel : String)

namespace Join

/-- Building a join names no place. -/
theorem moved_build (source : String) (endpoint : Endpoint) :
    moved base id (build sentinel source endpoint) = build sentinel source endpoint := by
  rw [build_eq, moved, buildReports]
  split <;> rfl

/-- Attaching restrictions names no place. -/
theorem moved_attachAll (attachments : List Attachment) (join : Join) :
    moved base id (join.attachAll attachments) = join.attachAll attachments := by
  rw [attachAll_eq, moved]
  cases join with
  | resolved => rfl
  | unresolved =>
    simp only [dropReports, List.map_map]
    rfl

end Join

namespace Graph

/-- Two ways onward from a neighbour, one of them seen from further outside. -/
def OnwardUnder (onward onward' : Onward) : Prop :=
  ∀ index visited, onward' index visited = moved base id (onward index visited)

variable {base}

/-- Joining along a relation moves with the graph if going onward does. -/
theorem joinAlong_under (graph : Graph) {onward onward' : Onward}
    (h : OnwardUnder base onward onward') (walk : Walk) (edge : Edge) (side : Orientation) :
    (graph.under base).joinAlong sentinel onward' walk (edge.under base) side =
      moved base id (graph.joinAlong sentinel onward walk edge side) := by
  unfold joinAlong
  refine bind_of_placeless base (Join.moved_build base sentinel _ _) fun join => ?_
  cases side.far.index? with
  | none => rfl
  | some other =>
    refine bind_of_placeless base (Join.moved_attachAll base _ join) fun join => ?_
    split
    · rfl
    · rw [h other]
      refine moved_bind_id base _ fun walked => ?_
      exact bind_of_placeless base (Join.moved_attachAll base _ join) fun join => rfl

/-- Passing a relation moves with the graph if going onward does, or if no join may be built. -/
theorem pass_under (graph : Graph) {onward onward' : Option Onward}
    (h : Option.Rel (OnwardUnder base) onward onward') (index : String) (walk : Walk)
    (edge : Edge) :
    (graph.under base).pass sentinel onward' index walk (edge.under base) =
      moved base id (graph.pass sentinel onward index walk edge) := by
  have hside : (edge.under base).orient? index = edge.orient? index := rfl
  unfold pass
  rw [hside]
  cases edge.orient? index with
  | none => rfl
  | some side =>
    dsimp only
    split
    · rfl
    · cases h with
      | none => rfl
      | some h => exact joinAlong_under sentinel graph h walk edge side

/-- Passing all relations moves with the graph. -/
theorem scan_under (graph : Graph) {onward onward' : Option Onward}
    (h : Option.Rel (OnwardUnder base) onward onward') :
    OnwardUnder base (graph.scan sentinel onward) ((graph.under base).scan sentinel onward') := by
  intro index visited
  have hrelations : (graph.under base).relations = graph.relations.map (Edge.under base) := rfl
  unfold scan
  rw [hrelations,
    Traced.foldlM_moved base fun walk edge => pass_under sentinel graph h index walk edge]
  exact moved_bind_id base _ fun walk => rfl

/-- The walk through a moved graph finds the same joins. -/
theorem walkFrom_under (graph : Graph) (levels : Nat) :
    OnwardUnder base (graph.walkFrom sentinel levels)
      ((graph.under base).walkFrom sentinel levels) := by
  induction levels with
  | zero => exact scan_under sentinel graph .none
  | succ levels ih => exact scan_under sentinel graph (.some ih)

/-- A moved graph compiles to the same joins. -/
theorem joins_under (graph : Graph) :
    (graph.under base).joins sentinel = moved base id (graph.joins sentinel) := by
  have hcheck : Traced.ofExcept (graph.under base).check =
      moved base id (Traced.ofExcept graph.check) :=
    congrArg Traced.ofExcept (check_under base graph)
  have hfocus : Traced.ofExcept (graph.under base).checkFocus =
      moved base id (Traced.ofExcept graph.checkFocus) := by
    unfold checkFocus under
    dsimp only
    split <;> rfl
  unfold joins
  rw [hcheck, hfocus]
  refine moved_bind_id base _ fun _ => moved_bind_id base _ fun _ => ?_
  refine (congrArg (· >>= _) (walkFrom_under sentinel graph maxJoinDepth _ _)).trans ?_
  refine moved_bind_id base _ fun walked => ?_
  have hlength : (graph.under base).relations.length = graph.relations.length := List.length_map _
  rw [hlength]
  rfl

end Graph

namespace Hop

/-- Reporting clauses that are ignored moves with the step. -/
theorem reportIgnored_under (hop : Hop) :
    (hop.under base).reportIgnored = moved base id hop.reportIgnored := by
  unfold reportIgnored
  change (if hop.filtered.queries.isEmpty then _ else _ : Compilation Unit) = _
  split <;> rfl

/-- A report that may be left out moves with the step, before what moves with it. -/
theorem reportIgnored_bind_under {α : Type} {f : α → α} (hop : Hop) (reports : Bool)
    {next next' : Compilation α} (h : next' = moved base f next) :
    (do
      if reports then (hop.under base).reportIgnored
      next' : Compilation α) =
      moved base f (do
        if reports then hop.reportIgnored
        next) := by
  cases reports with
  | false => exact h
  | true =>
    simp only [↓reduceIte, reportIgnored_under]
    exact moved_bind_id base _ fun _ => h

/-- The join of a step names no place. -/
theorem join_under (hop : Hop) :
    (hop.under base).join sentinel = moved base id (hop.join sentinel) :=
  bind_of_placeless base (Join.moved_build base sentinel _ _) fun join =>
    (Join.moved_attachAll base _ join).symm

end Hop

/-- Climbing steps moves with them and keeps the joins. -/
theorem Tier.climb_under (tier : Tier) (steps : List Step) :
    tier.climb sentinel (steps.map (Step.under base)) =
      moved base id (tier.climb sentinel steps) := by
  induction steps generalizing tier with
  | nil => rfl
  | cons step rest ih =>
    cases step with
    | group origin branches => rfl
    | relation hop =>
      simp only [List.map_cons, Step.under, climb, List.isEmpty_map]
      split
      · rfl
      · refine hop.reportIgnored_bind_under base _ ?_
        rw [hop.join_under base sentinel]
        refine moved_bind_id base _ fun join => ?_
        exact bind_of_placeless base (Join.moved_attachAll base _ join) fun join => ih _

mutual

/-- Climbing a moved chain gives the same joins. -/
theorem Chain.tier_under (chain : Chain) :
    (chain.under base).tier sentinel = moved base id (chain.tier sentinel) := by
  match chain with
  | ⟨origin, []⟩ => rfl
  | ⟨origin, first :: rest⟩ =>
    simp only [Chain.under, Step.allUnder, Step.allUnder_eq_map, Chain.tier, List.isEmpty_map,
      Tier.climb_under]
    rw [Step.tier_under rest.isEmpty first]
    exact moved_bind_id base _ fun tier => rfl

/-- The joins of a first step are the same in every place. -/
theorem Step.tier_under (last : Bool) (step : Step) :
    (step.under base).tier sentinel last = moved base id (step.tier sentinel last) := by
  cases step with
  | relation hop =>
    simp only [Step.under, Step.tier]
    refine hop.reportIgnored_bind_under base _ ?_
    rw [hop.join_under base sentinel]
    exact moved_bind_id base _ fun join => rfl
  | group origin branches =>
    simp only [Step.under, Step.tier]
    exact Chain.tiers_under branches

/-- The joins of branches are the same in every place. -/
theorem Chain.tiers_under (branches : List Chain) :
    Chain.tiers sentinel (Chain.allUnder base branches) =
      moved base id (Chain.tiers sentinel branches) := by
  cases branches with
  | nil => rfl
  | cons branch rest =>
    simp only [Chain.allUnder, Chain.tiers]
    rw [Chain.tier_under branch, Chain.tiers_under rest]
    exact moved_bind_id base _ fun first => moved_bind_id base _ fun others => rfl

end

/-- A moved chain compiles to the same joins. -/
theorem Chain.joins_under (chain : Chain) :
    (chain.under base).joins sentinel = moved base id (chain.joins sentinel) := by
  have hcheck : Traced.ofExcept (chain.under base).check =
      moved base id (Traced.ofExcept chain.check) :=
    congrArg Traced.ofExcept (check_under base chain)
  unfold joins
  rw [hcheck, tier_under]
  refine moved_bind_id base _ fun _ => moved_bind_id base _ fun tier => ?_
  obtain ⟨origin, steps⟩ := chain
  have hlength : (Chain.under base ⟨origin, steps⟩).steps.length = steps.length := by
    rw [Chain.under, Step.allUnder_eq_map, List.length_map]
  rw [hlength]
  rfl

namespace Specification

/-- The joins that a specification compiles to. -/
def joins (sentinel : String) : Specification → Compilation (List (Join × Bool))
  | .graph g => g.joins sentinel
  | .chain c => c.joins sentinel

/-- A specification compiles to the clauses of its joins. -/
theorem compile_eq_joins (specification : Specification) :
    specification.compile sentinel = Join.clauses <$> specification.joins sentinel := by
  cases specification <;> rfl

/-- A specification compiles to the clauses of its joins, or fails where these cannot be built. -/
theorem result_compile (specification : Specification) :
    (specification.compile sentinel).result =
      (specification.joins sentinel).result >>= fun joins => .ok (Join.clauses joins) := by
  rw [compile_eq_joins, map_eq_pure_bind, Traced.result_bind]
  rfl

/-- A moved specification compiles to the same joins, or fails in the same way at the moved
place. -/
theorem traced_joins_under (specification : Specification) :
    (specification.under base).joins sentinel = moved base id (specification.joins sentinel) := by
  cases specification with
  | graph g => exact g.joins_under sentinel
  | chain c => exact c.joins_under base sentinel

/-- A moved specification compiles to the same clauses with the same reports, or fails in the same
way, but for the places that are named. -/
theorem traced_compile_under (specification : Specification) :
    (specification.under base).compile sentinel =
      moved base id (specification.compile sentinel) := by
  rw [compile_eq_joins, compile_eq_joins, map_eq_pure_bind, map_eq_pure_bind, traced_joins_under]
  exact moved_bind_id base _ fun joins => rfl

/-- A moved specification compiles to the same joins, or fails in the same way at the moved
place. -/
theorem joins_under (specification : Specification) :
    ((specification.under base).joins sentinel).result =
      Fault.moved base id (specification.joins sentinel).result :=
  congrArg Traced.result (specification.traced_joins_under base sentinel)

/-- A moved specification compiles to the same clauses, or fails in the same way at the moved
place. -/
theorem compile_under (specification : Specification) :
    ((specification.under base).compile sentinel).result =
      Fault.moved base id (specification.compile sentinel).result :=
  congrArg Traced.result (specification.traced_compile_under base sentinel)

/-- Where a specification stands shows only in places. Under a longer pointer it is read as the
same specification, with this pointer before the origins of its parts, or with the same fault at a
place that goes on from there. And with longer origins it compiles to the same clauses or the same
fault, while the same events are reported, but for the places that these name. -/
theorem only_places_move (label : Label) (place : Pointer) (value : Json) (sentinel : String) :
    read label place value = Fault.moved place (under place) (read label Pointer.root value) ∧
    (∀ specification : Specification,
      (specification.under place).compile sentinel =
        Traced.moved place id (specification.compile sentinel)) ∧
    (Traced.ofExcept (read label place value) >>= compile sentinel) =
      Traced.moved place id
        (Traced.ofExcept (read label Pointer.root value) >>= compile sentinel) := by
  have hread : read label place value =
      Fault.moved place (under place) (read label Pointer.root value) := by
    have hunder := read_under place label Pointer.root value
    rwa [Pointer.root, List.append_nil] at hunder
  have hcompile : ∀ specification : Specification, (specification.under place).compile sentinel =
      Traced.moved place id (specification.compile sentinel) :=
    fun specification => specification.traced_compile_under place sentinel
  refine ⟨hread, hcompile, ?_⟩
  rw [hread]
  exact moved_bind place (Traced.ofExcept (read label Pointer.root value)) hcompile

end Specification

end Compiling

end Semijoin
