import Semijoin.Proofs.Graph.Rungs
import Semijoin.Proofs.Join.Reporting

/-!
# What a walk reports

A walk reports each relation that it skips and each join that it builds, in the order of its tour.
The joins of a walk drop nothing: clauses and nested joins come from an index, and a join to an
index takes them.
-/

namespace Semijoin

/-- A relation that is skipped, as seen from an index, and the index at its other end. -/
structure Skip where
  near : String
  far : String
  seen : Sighting

/-- How a relation that is skipped is reported. -/
def Skip.report (skip : Skip) : Event :=
  .relationSkipped skip.near skip.far skip.seen.edge.origin

/-- What is reported when the join of a relation is built. -/
def Sighting.buildReports (sentinel : String) (seen : Sighting) : List Event :=
  Join.buildReports sentinel seen.side.near.path seen.side.far

namespace Passage

/-- The relation that is passed at an index, if it is skipped. -/
def skip? (near : String) : Passage → Option Skip
  | skipped seen => seen.far?.map fun far => ⟨near, far, seen⟩
  | dangling _ | again _ _ | onward _ _ _ => none

/-- What is reported of a relation that is passed at an index. -/
def report (sentinel near : String) : Passage → List Event
  | skipped seen => ((skipped seen).skip? near).toList.map Skip.report
  | dangling seen | again seen _ | onward seen _ _ => seen.buildReports sentinel

mutual

/-- What is passed from a relation on, which is passed at an index itself. Each is told with its
index, in the order of the tour. -/
def passing (near : String) : Passage → List (String × Passage)
  | skipped seen => [(near, skipped seen)]
  | dangling seen => [(near, dangling seen)]
  | again seen other => [(near, again seen other)]
  | onward seen other inside => (near, onward seen other inside) :: allPassing other inside

/-- What is passed from the relations on that are passed at an index. -/
def allPassing (near : String) : List Passage → List (String × Passage)
  | [] => []
  | first :: rest => first.passing near ++ allPassing near rest

end

/-- What is reported when relations are passed at an index. -/
def reports (sentinel near : String) (passages : List Passage) : List Event :=
  (allPassing near passages).flatMap fun (near, passage) => passage.report sentinel near

variable {sentinel near other : String} {seen : Sighting} {inside rest : List Passage}

/-- A relation that leads nowhere is reported before the others. -/
theorem reports_cons {first : Passage} (h : first.passing near = [(near, first)]) :
    reports sentinel near (first :: rest) =
      first.report sentinel near ++ reports sentinel near rest := by
  rw [reports, allPassing, h]
  rfl

/-- A relation that leads onward is reported before what is passed there. -/
theorem reports_onward :
    reports sentinel near (.onward seen other inside :: rest) =
      seen.buildReports sentinel ++ reports sentinel other inside ++
        reports sentinel near rest := by
  rw [reports, allPassing, passing, List.flatMap_append, List.flatMap_cons]
  rfl

end Passage

namespace Graph

open Passage (reports)

variable {graph : Graph} {sentinel index other : String} {walk : Walk} {edge : Edge}
  {side : Orientation}

/-- A relation that is skipped is reported. -/
theorem events_pass_skipped (onward : Option Onward) (hside : edge.orient? index = some side)
    (hfar : side.far.index? = some other) (hentered : other ∉ walk.entered)
    (hvisited : other ∈ walk.visited) :
    (graph.pass sentinel onward index walk edge).events =
      [.relationSkipped index other edge.origin] := by
  have hfilter : side.far.index?.filter
      (fun other => other ∉ walk.entered ∧ other ∈ walk.visited) = some other := by
    simp [hfar, hentered, hvisited]
  simp only [pass, hside, hfilter]
  rfl

/-- What is reported of a relation that is not skipped is what its join reports. -/
theorem events_pass_open (onward : Onward) (walk : Walk) (hside : edge.orient? index = some side)
    (hopen : ∀ other, side.far.index? = some other → other ∈ walk.entered ∨ other ∉ walk.visited) :
    (graph.pass sentinel (some onward) index walk edge).events =
      (graph.joinAlong sentinel onward walk edge side).events := by
  simp only [pass, hside, filter_eq_none hopen]

/-- A join to an endpoint without an index is built. -/
theorem events_joinAlong_dangling (onward : Onward) (hfar : side.far.index? = none) :
    (graph.joinAlong sentinel onward walk edge side).events =
      Join.buildReports sentinel side.near.path side.far := by
  rw [joinAlong, Join.build_eq, Traced.bind_of_ok rfl]
  simp only [hfar, Traced.events_pure, List.append_nil]

/-- A join to an index drops nothing. -/
theorem dropReports_of_far (hfar : side.far.index? = some other) (attachments : List Attachment) :
    (Join.bare sentinel side.near.path side.far).dropReports attachments = [] :=
  Join.dropReports_bare_of_indices (Endpoint.indices_ne_nil hfar) _ _ _

/-- A further join to an index that was entered from here is built. -/
theorem events_joinAlong_again (onward : Onward) (hfar : side.far.index? = some other)
    (hentered : other ∈ walk.entered) :
    (graph.joinAlong sentinel onward walk edge side).events =
      Join.buildReports sentinel side.near.path side.far := by
  rw [joinAlong, Join.build_eq, Traced.bind_of_ok rfl]
  simp only [hfar, Join.attachClauses_eq, dropReports_of_far hfar]
  rw [Traced.bind_of_ok rfl, if_pos hentered]
  simp only [Traced.events_pure, List.append_nil]

/-- A join to an index that is entered is built before those found there. -/
theorem events_joinAlong_onward {onward : Onward} (hfar : side.far.index? = some other)
    (hentered : other ∉ walk.entered) {walked : Walked}
    (hwalked : (onward other (other :: walk.visited)).result = .ok walked) :
    (graph.joinAlong sentinel onward walk edge side).events =
      Join.buildReports sentinel side.near.path side.far ++
        (onward other (other :: walk.visited)).events := by
  rw [joinAlong, Join.build_eq, Traced.bind_of_ok rfl]
  simp only [hfar, Join.attachClauses_eq, dropReports_of_far hfar]
  rw [Traced.bind_of_ok rfl, if_neg hentered, Traced.bind_of_ok hwalked, Join.attachJoins_eq,
    Traced.bind_of_ok rfl, Join.dropReports_attaching, dropReports_of_far hfar]
  simp only [Traced.events_pure, List.append_nil, List.nil_append]

/-- Passes the relations that are seen from an index, with so many levels left. -/
def passAll (graph : Graph) (sentinel : String) (levels : Nat) (index : String) (walk : Walk)
    (seens : List Sighting) : Compilation Walk :=
  seens.foldlM (fun walk seen =>
    graph.pass sentinel (graph.onward? sentinel levels) index walk seen.edge) walk

/-- What a walk reports is what passing the relations reports that are seen from the index. -/
theorem events_walkFrom {levels : Nat} {visited : List String} {walked : Walked}
    (h : (graph.walkFrom sentinel levels index visited).result = .ok walked) :
    ∃ walk, (graph.passAll sentinel levels index ⟨visited, [], []⟩
        (graph.sightings index)).result = .ok walk ∧
      (graph.walkFrom sentinel levels index visited).events =
        (graph.passAll sentinel levels index ⟨visited, [], []⟩ (graph.sightings index)).events := by
  rw [walkFrom_eq_scan, scan_eq_of_sightings] at h ⊢
  obtain ⟨walk, hwalk, -⟩ := Traced.bind_eq_ok h
  refine ⟨walk, hwalk, ?_⟩
  rw [Traced.bind_of_ok hwalk]
  exact List.append_nil _

/-- Passing relations one after the other reports what each of them does. -/
theorem events_passAll_cons {levels : Nat} {walk next last : Walk} {seen : Sighting}
    {rest : List Sighting}
    (hnext : (graph.pass sentinel (graph.onward? sentinel levels) index walk seen.edge).result =
      .ok next)
    (hlast : (graph.passAll sentinel levels index walk (seen :: rest)).result = .ok last) :
    (graph.passAll sentinel levels index next rest).result = .ok last ∧
      (graph.passAll sentinel levels index walk (seen :: rest)).events =
        (graph.pass sentinel (graph.onward? sentinel levels) index walk seen.edge).events ++
          (graph.passAll sentinel levels index next rest).events := by
  have hcons : graph.passAll sentinel levels index walk (seen :: rest) =
      graph.pass sentinel (graph.onward? sentinel levels) index walk seen.edge >>= fun walk =>
        graph.passAll sentinel levels index walk rest := List.foldlM_cons
  rw [hcons, Traced.bind_of_ok hnext] at hlast ⊢
  exact ⟨hlast, rfl⟩

/-- Where a relation becomes a join there is a level left. -/
theorem exists_level {levels : Nat} {seens : List Sighting} {seen : Sighting} {last : Walk}
    (hside : seen.edge.orient? index = some seen.side)
    (hopen : ∀ other, seen.far? = some other → other ∈ walk.entered ∨ other ∉ walk.visited)
    (hlast : (graph.passAll sentinel levels index walk (seen :: seens)).result = .ok last) :
    ∃ left, levels = left + 1 := by
  cases levels with
  | zero =>
    obtain ⟨next, hnext, -⟩ := Traced.bind_eq_ok hlast
    cases (result_pass_tooDeep hside hopen).symm.trans hnext
  | succ left => exact ⟨left, rfl⟩

/-- **A walk that succeeds reports what its tour does.** -/
theorem Tours.events_passAll {seens : List Sighting} {visited entered visited' : List String}
    {passages : List Passage} (h : Tours graph seens visited entered passages visited')
    (hseens : ∀ seen ∈ seens, seen.edge.orient? index = some seen.side) {levels : Nat}
    {joins : List (Join × Bool)} {last : Walk}
    (hlast : (graph.passAll sentinel levels index ⟨visited, entered, joins⟩ seens).result =
      .ok last) :
    (graph.passAll sentinel levels index ⟨visited, entered, joins⟩ seens).events =
      reports sentinel index passages := by
  -- The tour has no limit, so the levels that are left to the walk vary along it.
  induction h generalizing index levels joins last with
  | nil => rfl
  | skipped hfar hentered hvisited _ ih =>
    obtain ⟨hside, hrest⟩ := List.forall_mem_cons.mp hseens
    obtain ⟨hlast, hevents⟩ :=
      events_passAll_cons (result_pass_skipped _ hside hfar hentered hvisited) hlast
    rw [hevents, ih hrest hlast, events_pass_skipped _ hside hfar hentered hvisited,
      Passage.reports_cons rfl, Passage.report, Passage.skip?, hfar]
    rfl
  | @dangling seen _ visited entered _ _ hfar _ ih =>
    obtain ⟨hside, hrest⟩ := List.forall_mem_cons.mp hseens
    have hopen : ∀ other, seen.far? = some other → other ∈ entered ∨ other ∉ visited := by
      simp [hfar]
    obtain ⟨left, rfl⟩ := exists_level hside hopen hlast
    obtain ⟨hlast, hevents⟩ := events_passAll_cons (result_pass_dangling _ hside hfar) hlast
    rw [hevents, ih hrest hlast, onward?, events_pass_open _ ⟨_, _, _⟩ hside hopen,
      events_joinAlong_dangling _ hfar]
    rfl
  | @again seen _ visited entered _ _ _ hfar hentered _ ih =>
    obtain ⟨hside, hrest⟩ := List.forall_mem_cons.mp hseens
    have hopen : ∀ other, seen.far? = some other → other ∈ entered ∨ other ∉ visited := by
      simp [hfar, hentered]
    obtain ⟨left, rfl⟩ := exists_level hside hopen hlast
    obtain ⟨hlast, hevents⟩ := events_passAll_cons (result_pass_again _ hside hfar hentered) hlast
    rw [hevents, ih hrest hlast, onward?, events_pass_open _ ⟨_, _, _⟩ hside hopen,
      events_joinAlong_again _ hfar hentered]
    rfl
  | @onward seen rest visited entered visited₁ visited' inside passages other hfar hentered
      hvisited hinside _ ihInside ihRest =>
    obtain ⟨hside, hrest⟩ := List.forall_mem_cons.mp hseens
    have hopen : ∀ other, seen.far? = some other → other ∈ entered ∨ other ∉ visited := by
      simp [hfar, hvisited]
    obtain ⟨left, rfl⟩ := exists_level hside hopen hlast
    have hnext := @result_pass_onward graph sentinel index other ⟨visited, entered, joins⟩ _ _
      (graph.walkFrom sentinel left) hside hfar hentered hvisited
    have hpassed : ∃ walked, (graph.walkFrom sentinel left other (other :: visited)).result =
        .ok walked := by
      obtain ⟨next, hok, -⟩ := Traced.bind_eq_ok hlast
      obtain ⟨walked, hwalked, -⟩ := bind_eq_ok (hnext.symm.trans hok)
      exact ⟨walked, hwalked⟩
    obtain ⟨walked, hwalked⟩ := hpassed
    have hvisited₁ : walked.visited = visited₁ := by
      obtain ⟨passages', htour', -⟩ := tours_of_walkFrom graph sentinel left _ _ _ hwalked
      exact (hinside.unique htour').2
    obtain ⟨walk, hwalk, hfound⟩ := events_walkFrom hwalked
    rw [hwalked] at hnext
    obtain ⟨hlast, hevents⟩ := events_passAll_cons hnext hlast
    rw [hvisited₁] at hlast hevents
    rw [hevents, ihRest hrest hlast, onward?, events_pass_open _ ⟨_, _, _⟩ hside hopen,
      events_joinAlong_onward hfar hentered hwalked, hfound,
      ihInside (fun seen hseen => (mem_sightings.mp hseen).2) hwalk, Passage.reports_onward]
    rfl

/-- What a walk reports is told by its tour. -/
theorem Tours.events_walkFrom_eq {visited visited' : List String} {passages : List Passage}
    (h : Tours graph (graph.sightings index) visited [] passages visited') {levels : Nat}
    {walked : Walked}
    (hwalked : (graph.walkFrom sentinel levels index visited).result = .ok walked) :
    (graph.walkFrom sentinel levels index visited).events = reports sentinel index passages := by
  obtain ⟨walk, hwalk, hevents⟩ := events_walkFrom hwalked
  rw [hevents]
  exact h.events_passAll (fun seen hseen => (mem_sightings.mp hseen).2) hwalk

end Graph

end Semijoin
