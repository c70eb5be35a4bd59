import Semijoin.Graph.Walk
import Semijoin.Proofs.Join.Building

/-!
# What the walk makes of one relation

A relation that touches an index is skipped, joins against the sentinel, joins once more with a
neighbour that has been entered from the same index, or leads on into a neighbour. The outcome
of each is told here without the events.
-/

namespace Semijoin

/-- An endpoint with a first index has an index. -/
theorem Endpoint.indices_ne_nil {endpoint : Endpoint} {index : String}
    (h : endpoint.index? = some index) : endpoint.indices ≠ [] := by
  intro hindices
  rw [index?, hindices] at h
  cases h

namespace Graph

/-- The join of a relation as seen from one of its indices, with the clauses of the far index. -/
def ownJoin (graph : Graph) (sentinel : String) (side : Orientation) : Join :=
  (Join.bare sentinel side.near.path side.far).attaching
    (Join.clauseAttachments ((side.far.index?.map graph.queriesFor).getD []))

variable {graph : Graph} {sentinel : String} {index other : String} {walk : Walk} {edge : Edge}
  {side : Orientation}

/-- An endpoint without an index gives a join that takes no clauses. -/
theorem ownJoin_of_index?_eq_none (h : side.far.index? = none) :
    graph.ownJoin sentinel side = .unresolved side.near.path side.far.path sentinel := by
  have hempty : side.far.indices = [] := List.head?_eq_none_iff.mp h
  simp [ownJoin, Join.bare, hempty, Join.attaching]

/-- A join to an index takes its clauses, and joins behind them. -/
theorem ownJoin_attaching (hfar : side.far.index? = some other) (joins : List (Join × Bool)) :
    (graph.ownJoin sentinel side).attaching (Join.joinAttachments joins) =
      .resolved side.near.path side.far.toTarget
        (Join.clauseAttachments (graph.queriesFor other) ++ Join.joinAttachments joins) := by
  simp [ownJoin, Join.bare, Endpoint.indices_ne_nil hfar, Join.attaching, hfar]

/-- A relation that does not touch the index leaves the walk as it is. -/
theorem result_pass_untouched (onward : Option Onward) (hside : edge.orient? index = none) :
    (graph.pass sentinel onward index walk edge).result = .ok walk := by
  simp only [pass, hside]
  rfl

/-- A relation to a visited index that was not entered from here is skipped. -/
theorem result_pass_skipped (onward : Option Onward) (hside : edge.orient? index = some side)
    (hfar : side.far.index? = some other) (hentered : other ∉ walk.entered)
    (hvisited : other ∈ walk.visited) :
    (graph.pass sentinel onward index walk edge).result = .ok walk := by
  have hfilter : side.far.index?.filter
      (fun other => other ∉ walk.entered ∧ other ∈ walk.visited) = some other := by
    simp [hfar, hentered, hvisited]
  simp only [pass, hside, hfilter]
  rfl

/-- A relation is passed over only when its far index is visited and not entered from here. -/
theorem filter_eq_none
    (hopen : ∀ other, side.far.index? = some other → other ∈ walk.entered ∨ other ∉ walk.visited) :
    side.far.index?.filter
      (fun other => other ∉ walk.entered ∧ other ∈ walk.visited) = none := by
  cases hfar : side.far.index? with
  | none => rfl
  | some other =>
    rcases hopen other hfar with hentered | hvisited
    · simp [hentered]
    · simp [hvisited]

/-- Where no join may be built, a relation that is not skipped is a fault. -/
theorem result_pass_tooDeep (hside : edge.orient? index = some side)
    (hopen : ∀ other, side.far.index? = some other → other ∈ walk.entered ∨ other ∉ walk.visited) :
    (graph.pass sentinel none index walk edge).result =
      .error (.malformed .tooDeep edge.origin) := by
  simp only [pass, hside, filter_eq_none hopen]
  rfl

/-- Where joins may be built, a relation that is not skipped becomes one. -/
theorem result_pass_open (onward : Onward) (hside : edge.orient? index = some side)
    (hopen : ∀ other, side.far.index? = some other → other ∈ walk.entered ∨ other ∉ walk.visited) :
    (graph.pass sentinel (some onward) index walk edge).result =
      (graph.joinAlong sentinel onward walk edge side).result := by
  simp only [pass, hside, filter_eq_none hopen]

/-- A relation to an endpoint without an index joins against the sentinel. -/
theorem result_pass_dangling (onward : Onward) (hside : edge.orient? index = some side)
    (hfar : side.far.index? = none) :
    (graph.pass sentinel (some onward) index walk edge).result =
      .ok { walk with joins := walk.joins ++ [(graph.ownJoin sentinel side, edge.negate)] } := by
  rw [result_pass_open onward hside (by simp [hfar])]
  simp only [joinAlong, Traced.result_bind, Join.result_build, hfar, ownJoin]
  simp only [Option.map_none, Option.getD_none, Join.clauseAttachments, List.map_nil,
    Join.attaching_nil]
  rfl

/-- A further relation to a neighbour that was entered from here is a join with its clauses. -/
theorem result_pass_again (onward : Onward) (hside : edge.orient? index = some side)
    (hfar : side.far.index? = some other) (hentered : other ∈ walk.entered) :
    (graph.pass sentinel (some onward) index walk edge).result =
      .ok { walk with joins := walk.joins ++ [(graph.ownJoin sentinel side, edge.negate)] } := by
  rw [result_pass_open onward hside (by simp [hfar, hentered])]
  simp only [joinAlong, Traced.result_bind, Join.result_build, Join.result_attachClauses, hfar,
    ownJoin]
  change (if other ∈ walk.entered then _ else _ : Compilation Walk).result = _
  rw [if_pos hentered]
  rfl

/-- A relation to a neighbour that has not been visited is a join that also carries the joins
found there. -/
theorem result_pass_onward (onward : Onward) (hside : edge.orient? index = some side)
    (hfar : side.far.index? = some other) (hentered : other ∉ walk.entered)
    (hvisited : other ∉ walk.visited) :
    (graph.pass sentinel (some onward) index walk edge).result =
      (onward other (other :: walk.visited)).result >>= fun walked => .ok {
        visited := walked.visited
        entered := other :: walk.entered
        joins := walk.joins ++
          [((graph.ownJoin sentinel side).attaching (Join.joinAttachments walked.joins),
            edge.negate)] } := by
  rw [result_pass_open onward hside (by simp [hfar, hvisited])]
  simp only [joinAlong, Traced.result_bind, Join.result_build, Join.result_attachClauses, hfar,
    ownJoin]
  change (if other ∈ walk.entered then _ else _ : Compilation Walk).result = _
  rw [if_neg hentered, Traced.result_bind]
  congr 1
  funext walked
  rw [Traced.result_bind, Join.result_attachJoins]
  rfl

/-- What comes of passing a relation: nothing, a fault, a join, or whatever comes of going on. -/
inductive Passed (graph : Graph) (sentinel index : String) (walk : Walk) (edge : Edge) :
    Option Onward → Except Fault Walk → Prop
  | untouched {onward : Option Onward} (hside : edge.orient? index = none) :
    Passed graph sentinel index walk edge onward (.ok walk)
  | skipped {onward : Option Onward} {side : Orientation} {other : String}
    (hside : edge.orient? index = some side) (hfar : side.far.index? = some other)
    (hentered : other ∉ walk.entered) (hvisited : other ∈ walk.visited) :
    Passed graph sentinel index walk edge onward (.ok walk)
  | tooDeep {side : Orientation} (hside : edge.orient? index = some side)
    (hopen : ∀ other, side.far.index? = some other → other ∈ walk.entered ∨ other ∉ walk.visited) :
    Passed graph sentinel index walk edge none (.error (.malformed .tooDeep edge.origin))
  | dangling {way : Onward} {side : Orientation} (hside : edge.orient? index = some side)
    (hfar : side.far.index? = none) :
    Passed graph sentinel index walk edge (some way)
      (.ok { walk with joins := walk.joins ++ [(graph.ownJoin sentinel side, edge.negate)] })
  | again {way : Onward} {side : Orientation} {other : String}
    (hside : edge.orient? index = some side) (hfar : side.far.index? = some other)
    (hentered : other ∈ walk.entered) :
    Passed graph sentinel index walk edge (some way)
      (.ok { walk with joins := walk.joins ++ [(graph.ownJoin sentinel side, edge.negate)] })
  | onward {way : Onward} {side : Orientation} {other : String}
    (hside : edge.orient? index = some side) (hfar : side.far.index? = some other)
    (hentered : other ∉ walk.entered) (hvisited : other ∉ walk.visited) :
    Passed graph sentinel index walk edge (some way)
      ((way other (other :: walk.visited)).result >>= fun walked => .ok {
        visited := walked.visited
        entered := other :: walk.entered
        joins := walk.joins ++
          [((graph.ownJoin sentinel side).attaching (Join.joinAttachments walked.joins),
            edge.negate)] })

/-- One of these comes of passing a relation. -/
theorem passed_pass (onward : Option Onward) :
    Passed graph sentinel index walk edge onward
      (graph.pass sentinel onward index walk edge).result := by
  cases hside : edge.orient? index with
  | none =>
    rw [result_pass_untouched onward hside]
    exact .untouched hside
  | some side =>
    by_cases hskipped : ∃ other, side.far.index? = some other ∧ other ∉ walk.entered ∧
        other ∈ walk.visited
    · obtain ⟨other, hfar, hentered, hvisited⟩ := hskipped
      rw [result_pass_skipped onward hside hfar hentered hvisited]
      exact .skipped hside hfar hentered hvisited
    · have hopen : ∀ other, side.far.index? = some other →
          other ∈ walk.entered ∨ other ∉ walk.visited := by
        intro other hfar
        refine Decidable.or_iff_not_imp_left.mpr fun hentered hvisited => ?_
        exact hskipped ⟨other, hfar, hentered, hvisited⟩
      cases onward with
      | none =>
        rw [result_pass_tooDeep hside hopen]
        exact .tooDeep hside hopen
      | some way =>
        cases hfar : side.far.index? with
        | none =>
          rw [result_pass_dangling way hside hfar]
          exact .dangling hside hfar
        | some other =>
          by_cases hentered : other ∈ walk.entered
          · rw [result_pass_again way hside hfar hentered]
            exact .again hside hfar hentered
          · have hvisited := (hopen other hfar).resolve_left hentered
            rw [result_pass_onward way hside hfar hentered hvisited]
            exact .onward hside hfar hentered hvisited

/-- Scanning the relations of an index passes them one after the other. -/
theorem result_scan (onward : Option Onward) (index : String) (visited : List String) :
    (graph.scan sentinel onward index visited).result =
      (graph.relations.foldlM
        (fun walk edge => (graph.pass sentinel onward index walk edge).result)
        ⟨visited, [], []⟩) >>= fun walk => .ok ⟨walk.visited, walk.joins⟩ := by
  rw [scan, Traced.result_bind, Traced.result_foldlM]
  rfl

/-- A graph passes its check exactly when none of its relations is a loop. -/
theorem check_eq_ok_iff {graph : Graph} :
    graph.check = .ok () ↔ ∀ edge ∈ graph.relations, edge.loop? = none := by
  rw [check, forM_eq_ok_iff]
  refine forall₂_congr fun edge _ => ?_
  cases edge.loop? with
  | none => exact iff_of_true rfl rfl
  | some index => exact iff_of_false nofun nofun

/-- A graph may be compiled exactly when it has no clauses for its focus. -/
theorem checkFocus_eq_ok_iff_lookup {graph : Graph} :
    graph.checkFocus = .ok () ↔ graph.queries.lookup graph.focus = none := by
  rw [checkFocus]
  cases graph.queries.lookup graph.focus with
  | none => exact iff_of_true rfl rfl
  | some clauses => exact iff_of_false nofun nofun

/-- The joins of a graph are those that the walk finds from its focus, once it has been checked. -/
theorem result_joins (graph : Graph) (sentinel : String) :
    (graph.joins sentinel).result =
      graph.check >>= fun _ => graph.checkFocus >>= fun _ =>
        (graph.walkFrom sentinel maxJoinDepth graph.focus [graph.focus]).result >>=
          fun walked => .ok walked.joins := by
  simp only [joins, Traced.result_bind, Traced.ofExcept]
  rfl

/-- A graph compiles to the clauses of the joins that the walk finds from its focus. -/
theorem result_compile (graph : Graph) (sentinel : String) :
    (graph.compile sentinel).result =
      graph.check >>= fun _ => graph.checkFocus >>= fun _ =>
        (graph.walkFrom sentinel maxJoinDepth graph.focus [graph.focus]).result >>=
          fun walked => .ok (Join.clauses walked.joins) := by
  simp only [compile, Traced.result_bind, result_joins, bind_assoc]
  rfl

end Graph

end Semijoin
