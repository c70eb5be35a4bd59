import Semijoin.Proofs.Graph.Component
import Semijoin.Proofs.Graph.Rungs

/-!
# What a walk sees of a graph

At an index a walk sees the relations that touch it, each with the field on this side and the target
on the other. It sees neither the order in which the two sides are written nor the clauses that are
written there. So the walk from the focus depends on the component of the focus only, and relations
may be turned round.
-/

namespace Semijoin

/-- What an index sees of a relation: the field on its own side and the target on the other one. -/
structure View where
  source : String
  target : Target
  negate : Bool
  origin : Pointer
  deriving DecidableEq, Repr

/-- What an index sees of a relation, if it touches the index. -/
def Edge.view? (edge : Edge) (index : String) : Option View :=
  (edge.orient? index).map fun side =>
    ⟨side.near.path, side.far.toTarget, edge.negate, edge.origin⟩

namespace View

variable {view : View} {index : String}

/-- The far endpoint of a relation that is seen, without clauses. -/
def far (view : View) : Endpoint := { view.target with queries := [] }

/-- A relation that looks from an index as seen, with no clauses at its endpoints. -/
def edge (view : View) (index : String) : Edge where
  first := .ofIndex index view.source
  second := view.far
  negate := view.negate
  origin := view.origin

/-- Seen from the index, that relation has the far endpoint on the other side. -/
theorem orient?_edge :
    (view.edge index).orient? index = some ⟨.ofIndex index view.source, view.far⟩ :=
  if_pos rfl

end View

namespace Graph

/-- What an index sees of the relations, in the order in which they are written. -/
def views (graph : Graph) (index : String) : List View :=
  graph.relations.filterMap fun edge => edge.view? index

variable {graph graph' : Graph} {sentinel index other : String} {view : View}

/-- What leads to another index is seen of a relation to a neighbour. -/
theorem adjacent_of_mem_views (hview : view ∈ graph.views index)
    (hfar : view.far.index? = some other) : graph.Adjacent index other := by
  obtain ⟨edge, hedge, hview⟩ := List.mem_filterMap.mp hview
  obtain ⟨side, hside, rfl⟩ := Option.map_eq_some_iff.mp hview
  exact ⟨edge, hedge, Edge.joins_of_orient? hside hfar⟩

/-- A walk passes a relation as what it sees of it. -/
theorem pass_eq_of_view? (onward : Option Onward) {walk : Walk} {edge : Edge} :
    graph.pass sentinel onward index walk edge =
      match edge.view? index with
      | some view => graph.pass sentinel onward index walk (view.edge index)
      | none => pure walk := by
  cases hside : edge.orient? index with
  | none => simp only [pass, Edge.view?, hside, Option.map_none]
  | some side =>
    simp only [pass, Edge.view?, hside, Option.map_some, View.orient?_edge]
    rfl

/-- A scan passes what the index sees. -/
theorem scan_eq_of_views (onward : Option Onward) (visited : List String) :
    graph.scan sentinel onward index visited = do
      let walk ← (graph.views index).foldlM (fun walk view =>
        graph.pass sentinel onward index walk (view.edge index)) ⟨visited, [], []⟩
      return ⟨walk.visited, walk.joins⟩ := by
  rw [scan, views, List.foldlM_filterMap]
  congr 2
  funext walk edge
  rw [pass_eq_of_view?]
  cases edge.view? index <;> rfl

section Alike

/-- Two graphs look the same from some indices, have the same clauses for them, and have no relation
that leads from them to another index. -/
structure Alike (graph graph' : Graph) (within : String → Prop) : Prop where
  views : ∀ index, within index → graph.views index = graph'.views index
  queriesFor : ∀ index, within index → graph.queriesFor index = graph'.queriesFor index
  closed : ∀ index, within index → ∀ other, graph.Adjacent index other → within other

variable {within : String → Prop} {levels : Nat}

/-- Going through a list, two steps that agree on its elements do the same. -/
theorem foldlM_congr {α σ : Type} {step step' : σ → α → Compilation σ} {values : List α}
    (h : ∀ value ∈ values, ∀ state, step state value = step' state value) (state : σ) :
    values.foldlM step state = values.foldlM step' state := by
  induction values generalizing state with
  | nil => rfl
  | cons value rest ih =>
    obtain ⟨hvalue, hrest⟩ := List.forall_mem_cons.mp h
    rw [List.foldlM_cons, List.foldlM_cons, hvalue]
    exact bind_congr fun state => ih hrest state

/-- A relation becomes the same join in two graphs that have the same clauses for its far index and
go onward from there in the same way. -/
theorem joinAlong_congr {onward onward' : Onward} {edge : Edge} {side : Orientation}
    (h : ∀ other, side.far.index? = some other →
      graph.queriesFor other = graph'.queriesFor other ∧ onward other = onward' other)
    (walk : Walk) :
    graph.joinAlong sentinel onward walk edge side =
      graph'.joinAlong sentinel onward' walk edge side := by
  unfold joinAlong
  cases hfar : side.far.index? with
  | none => rfl
  | some other =>
    obtain ⟨hqueries, honward⟩ := h other hfar
    simp only [hqueries, honward]

/-- What is seen from one of the indices is passed in the same way in graphs that look alike, if
they are walked in the same way with fewer levels. -/
theorem Alike.pass_eq (h : Alike graph graph' within) (hindex : within index)
    (hfewer : ∀ fewer < levels, ∀ other, within other →
      graph.walkFrom sentinel fewer other = graph'.walkFrom sentinel fewer other)
    (hview : view ∈ graph.views index) (walk : Walk) :
    graph.pass sentinel (graph.onward? sentinel levels) index walk (view.edge index) =
      graph'.pass sentinel (graph'.onward? sentinel levels) index walk (view.edge index) := by
  simp only [pass, View.orient?_edge]
  split
  · rfl
  · cases levels with
    | zero => rfl
    | succ fewer =>
      refine joinAlong_congr (fun other hfar => ?_) walk
      have hother := h.closed index hindex other (adjacent_of_mem_views hview hfar)
      exact ⟨h.queriesFor other hother, hfewer fewer (Nat.lt_succ_self fewer) other hother⟩

/-- **Graphs that look alike are walked in the same way.** -/
theorem Alike.walkFrom_eq (h : Alike graph graph' within) (sentinel : String) (levels : Nat) :
    ∀ index, within index →
      graph.walkFrom sentinel levels index = graph'.walkFrom sentinel levels index := by
  -- The two walks are at the same index all the time, and it stays among those that look alike.
  induction levels using Nat.strongRecOn with
  | ind levels hfewer =>
    intro index hindex
    funext visited
    rw [walkFrom_eq_scan, walkFrom_eq_scan, scan_eq_of_views, scan_eq_of_views,
      ← h.views index hindex]
    refine congrArg (· >>= _) (foldlM_congr (fun view hview walk => ?_) _)
    exact h.pass_eq hindex hfewer hview walk

end Alike

end Graph

section Component

namespace Edge

/-- A relation without the clauses written at its endpoints. -/
def withoutClauses (edge : Edge) : Edge :=
  { edge with
    first := { edge.first with queries := [] }
    second := { edge.second with queries := [] } }

/-- One of the endpoints of a relation is at one of the indices. -/
def touches (edge : Edge) (indices : List String) : Bool :=
  edge.first.index?.any (indices.contains ·) || edge.second.index?.any (indices.contains ·)

variable {edge : Edge} {index : String} {indices : List String}

/-- Clauses written at the endpoints are not seen. -/
theorem view?_withoutClauses (edge : Edge) (index : String) :
    edge.withoutClauses.view? index = edge.view? index := by
  have hfirst : edge.withoutClauses.first.index? = edge.first.index? := rfl
  have hsecond : edge.withoutClauses.second.index? = edge.second.index? := rfl
  simp only [view?, orient?, hfirst, hsecond]
  split_ifs <;> rfl

/-- What touches none of the indices is not seen from them. -/
theorem view?_eq_none_of_touches (h : edge.touches indices = false) (hindex : index ∈ indices) :
    edge.view? index = none := by
  simp only [touches, Bool.or_eq_false_iff] at h
  have hfirst : edge.first.index? ≠ some index := by
    intro heq
    simp [heq, hindex] at h
  have hsecond : edge.second.index? ≠ some index := by
    intro heq
    simp [heq, hindex] at h
  rw [view?, orient?, if_neg hfirst, if_neg hsecond, Option.map_none]

end Edge

namespace Graph

/-- The relations that touch some indices, without the clauses written at their endpoints. -/
def touching (graph : Graph) (indices : List String) : List Edge :=
  (graph.relations.filter fun edge => edge.touches indices).map Edge.withoutClauses

variable {graph graph' : Graph} {index : String} {component : List String}

/-- From one of the indices only what touches them is seen. -/
theorem views_eq_touching (graph : Graph) (hindex : index ∈ component) :
    graph.views index = (graph.touching component).filterMap fun edge => edge.view? index := by
  rw [views, touching, List.filterMap_map, List.filterMap_filter]
  refine List.filterMap_congr fun edge _ => ?_
  split
  · exact (edge.view?_withoutClauses index).symm
  · next htouches => exact Edge.view?_eq_none_of_touches (by simpa using htouches) hindex

/-- The indices are the component of the focus of a graph. Another graph has the same focus, the
same relations that touch the component, but for the clauses written at their endpoints, and the
same clauses for the indices of the component. -/
structure SameAround (graph graph' : Graph) (component : List String) : Prop where
  focus : graph.focus = graph'.focus
  mem_iff : ∀ index, index ∈ component ↔ graph.Connected index
  touching : graph.touching component = graph'.touching component
  queriesFor : ∀ index ∈ component, index ≠ graph.focus →
    graph.queriesFor index = graph'.queriesFor index

/-- Where the focus has no clauses, there are none for it. -/
theorem queriesFor_focus (h : graph.checkFocus = .ok ()) : graph.queriesFor graph.focus = [] := by
  rw [queriesFor, checkFocus_eq_ok_iff_lookup.mp h, Option.getD_none]

/-- Graphs that are the same around the component look alike from it. -/
theorem SameAround.alike (h : SameAround graph graph' component)
    (hqueries : graph.checkFocus = .ok ()) (hqueries' : graph'.checkFocus = .ok ()) :
    Alike graph graph' (· ∈ component) where
  views index hindex := by
    rw [views_eq_touching graph hindex, views_eq_touching graph' hindex, h.touching]
  queriesFor index hindex := by
    by_cases hfocus : index = graph.focus
    · rw [hfocus, queriesFor_focus hqueries, h.focus, queriesFor_focus hqueries']
    · exact h.queriesFor index hindex hfocus
  closed index hindex other hadjacent :=
    (h.mem_iff other).mpr (((h.mem_iff index).mp hindex).tail hadjacent)

/-- **Only the component of the focus matters.** Graphs that pass their checks and are the same
around the component of the focus compile to the same clauses, or to the same fault. -/
theorem result_compile_component (h : SameAround graph graph' component)
    (hcheck : graph.check = .ok ()) (hcheck' : graph'.check = .ok ())
    (hqueries : graph.checkFocus = .ok ()) (hqueries' : graph'.checkFocus = .ok ())
    (sentinel : String) : (graph.compile sentinel).result = (graph'.compile sentinel).result := by
  have hfocus := (h.mem_iff graph.focus).mpr .refl
  have hwalk := (h.alike hqueries hqueries').walkFrom_eq sentinel maxJoinDepth _ hfocus
  rw [result_compile, result_compile, hcheck, hcheck', hqueries, hqueries', hwalk, h.focus]

/-- A focus with one neighbour. -/
def couple : Graph where
  focus := "a"
  relations := [⟨.ofIndex "a" "x", .ofIndex "b" "y", true, .root⟩]
  queries := [("b", [.filter (.object [("match_all", .object [])])])]

/-- The same focus and neighbour, with clauses at their relation, and another couple beside them. -/
def coupleBeside : Graph where
  focus := "a"
  relations :=
    [⟨.ofIndex "c" "x", .ofIndex "d" "y", false, .root⟩,
      ⟨{ Endpoint.ofIndex "a" "x" with queries := [.filter (.object [])] },
        { Endpoint.ofIndex "b" "y" with queries := [.filter (.object [])] }, true, .root⟩]
  queries := [("d", [.filter (.object [])]), ("b", [.filter (.object [("match_all", .object [])])])]

/-- The component of the couple is the couple. -/
theorem couple_connected_iff (index : String) :
    index ∈ ["a", "b"] ↔ couple.Connected index := by
  have hadjacent (one other : String) : couple.Adjacent one other ↔
      one = "a" ∧ other = "b" ∨ one = "b" ∧ other = "a" := by
    simp only [Adjacent, couple, Edge.Joins, Endpoint.ofIndex, Endpoint.index?, List.mem_singleton,
      exists_eq_left, List.head?_cons, Option.some.injEq]
    grind
  constructor
  · intro hindex
    rcases List.mem_pair.mp hindex with rfl | rfl
    · exact .refl
    · exact .single ((hadjacent _ _).mpr (.inl ⟨rfl, rfl⟩))
  · intro hconnected
    induction hconnected with
    | refl => exact List.mem_cons_self
    | tail _ hstep _ => rcases (hadjacent _ _).mp hstep with ⟨-, rfl⟩ | ⟨-, rfl⟩ <;> simp

/-- What stands beside the couple does not matter. -/
theorem result_compile_component_couple :
    (couple.compile "none").result = (coupleBeside.compile "none").result := by
  have hsame : SameAround couple coupleBeside ["a", "b"] :=
    ⟨rfl, couple_connected_iff, by decide, by decide⟩
  exact result_compile_component hsame (by decide) (by decide) (by decide) (by decide) "none"

end Graph

end Component

section Turning

/-- A relation with its endpoints exchanged. -/
def Edge.turn (edge : Edge) : Edge := { edge with first := edge.second, second := edge.first }

/-- The relations at the chosen places are turned. -/
def Graph.turn (graph : Graph) (chosen : Nat → Bool) : Graph :=
  { graph with
    relations := graph.relations.mapIdx fun place edge =>
      if chosen place then edge.turn else edge }

namespace Edge

variable {edge : Edge}

/-- A relation that joins an index with itself still does so when it is turned. -/
theorem loop?_turn (edge : Edge) : edge.turn.loop? = edge.loop? := by
  by_cases h : edge.first.index? = edge.second.index?
  · simp only [loop?, turn, h]
  · rw [loop?, loop?, if_neg h, turn, if_neg (Ne.symm h)]

/-- Refuses a relation that joins an index with itself. -/
def check (edge : Edge) : Except Fault Unit :=
  match edge.loop? with
  | some index => throw (.selfRelation index edge.origin)
  | none => return ()

/-- A relation is refused as it is when it is turned. -/
theorem check_turn (edge : Edge) : edge.turn.check = edge.check := by
  rw [check, loop?_turn]
  rfl

/-- A relation that does not join an index with itself looks the same when it is turned. -/
theorem view?_turn (h : edge.loop? = none) (index : String) :
    edge.turn.view? index = edge.view? index := by
  have hends : ¬ (edge.first.index? = some index ∧ edge.second.index? = some index) := by
    rintro ⟨hfirst, hsecond⟩
    rw [loop?, hfirst, hsecond, if_pos rfl] at h
    cases h
  unfold view? orient? turn
  split_ifs <;> first | rfl | exact absurd ⟨‹_›, ‹_›⟩ hends

end Edge

namespace Graph

variable {graph : Graph}

/-- What is the same of a turned relation is the same of turned relations. -/
theorem map_turn {α : Type} {f : Edge → α} (h : ∀ edge ∈ graph.relations, f edge.turn = f edge)
    (chosen : Nat → Bool) : (graph.turn chosen).relations.map f = graph.relations.map f := by
  refine List.ext_getElem (by simp [turn]) fun place _ hplace => ?_
  rw [List.length_map] at hplace
  simp only [turn, List.getElem_map, List.getElem_mapIdx]
  split
  · exact h _ (List.getElem_mem hplace)
  · rfl

/-- Turning relations changes nothing about the check. -/
theorem check_turn (graph : Graph) (chosen : Nat → Bool) :
    (graph.turn chosen).check = graph.check := by
  have hcheck (graph : Graph) : graph.check = (graph.relations.map Edge.check).forM id := by
    rw [List.forM_eq_forM, List.forM_map]
    rfl
  rw [hcheck, hcheck, map_turn fun edge _ => edge.check_turn]

/-- In a graph that passes its check relations look the same when they are turned. -/
theorem views_turn (h : graph.check = .ok ()) (chosen : Nat → Bool) (index : String) :
    (graph.turn chosen).views index = graph.views index := by
  have hviews (graph : Graph) : graph.views index =
      (graph.relations.map fun edge => edge.view? index).filterMap id := by
    rw [List.filterMap_map]
    rfl
  have hturn : ∀ edge ∈ graph.relations, edge.turn.view? index = edge.view? index :=
    fun edge hedge => Edge.view?_turn (check_eq_ok_iff.mp h edge hedge) index
  rw [hviews, hviews, map_turn hturn]

/-- **Relations have no direction.** Whichever of them are turned, a graph compiles to the same
clauses, or to the same fault, and the same events are reported. -/
theorem compile_turn (graph : Graph) (chosen : Nat → Bool) (sentinel : String) :
    (graph.turn chosen).compile sentinel = graph.compile sentinel := by
  have hfocus : (graph.turn chosen).focus = graph.focus := rfl
  have hqueries : (graph.turn chosen).checkFocus = graph.checkFocus := rfl
  have hlength : (graph.turn chosen).relations.length = graph.relations.length :=
    List.length_mapIdx
  rw [compile, compile, joins, joins, check_turn, hfocus, hqueries, hlength]
  -- A loop is seen from one side only, so turning it shows; but it is refused before any walk.
  cases hcheck : graph.check with
  | error fault =>
    have hrefused (next : Unit → Compilation (List (Join × Bool))) :
        Traced.ofExcept (.error fault) >>= next = ⟨[], .error fault⟩ :=
      Traced.bind_of_error rfl next
    rw [hrefused, hrefused]
  | ok _ =>
    have halike : Alike (graph.turn chosen) graph fun _ => True :=
      ⟨fun index _ => views_turn hcheck chosen index, fun _ _ => rfl, fun _ _ _ _ => trivial⟩
    rw [halike.walkFrom_eq sentinel _ _ trivial]

end Graph

end Turning

end Semijoin
