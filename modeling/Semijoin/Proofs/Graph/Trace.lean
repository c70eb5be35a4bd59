import Semijoin.Proofs.Chain.Nesting
import Semijoin.Proofs.Graph.Reports
import Semijoin.Proofs.Graph.Spanning

/-!
# The relations of a graph in its reports

Every relation of the component of the focus is accounted for. A relation to a child gives a join,
and its child skips it on the way back. A relation that leads further up the tree gives no join, and
is skipped from both of its ends.
-/

namespace Semijoin

namespace Skip

/-- The ends of the relation at a place, once for each time that it is skipped: the index that sees
it there, and the other one. -/
def along (position : Nat) (skips : List Skip) : List (String × String) :=
  (skips.filter fun skip => decide (skip.seen.position = position)).map fun skip =>
    (skip.near, skip.far)

end Skip

/-- The offshoots within two lists of them are those within each. -/
theorem Offshoot.allWithin_append (first second : List Offshoot) :
    allWithin (first ++ second) = allWithin first ++ allWithin second := by
  induction first with
  | nil => rfl
  | cons offshoot rest ih => simp only [List.cons_append, allWithin, ih, List.append_assoc]

namespace Passage

/-- The relations that are skipped at an index and further on. -/
def skips (near : String) (passages : List Passage) : List Skip :=
  (allPassing near passages).filterMap fun (near, passage) => passage.skip? near

mutual

/-- Below a relation there is passed what is passed at the stops that it leads to. -/
theorem passing_perm (near : String) : (passage : Passage) →
    (passage.passing near).Perm ((near, passage) ::
      (passage.stops near).flatMap fun stop => stop.passages.map (stop.index, ·))
  | skipped _ | dangling _ | again _ _ => .refl _
  | onward _ other inside => (allPassing_perm other inside).cons _

/-- At an index and further on there is passed what is passed there and at the stops. -/
theorem allPassing_perm (near : String) : (passages : List Passage) →
    (allPassing near passages).Perm (passages.map (near, ·) ++
      (allStops near passages).flatMap fun stop => stop.passages.map (stop.index, ·))
  | [] => .refl _
  | first :: rest => by
    rw [allPassing, allStops, List.flatMap_append, List.map_cons, List.cons_append]
    refine ((passing_perm near first).append (allPassing_perm near rest)).trans ?_
    exact (List.perm_append_comm_assoc _ _ _).cons _

end

/-- What is skipped on a tour from the focus is skipped at its stops. -/
theorem skips_perm (graph : Graph) (passages : List Passage) :
    (skips graph.focus passages).Perm ((Graph.wholeTour graph passages).flatMap fun stop =>
      stop.passages.filterMap (skip? stop.index)) := by
  refine ((allPassing_perm graph.focus passages).filterMap _).trans (.of_eq ?_)
  simp only [Graph.wholeTour, List.flatMap_cons, List.filterMap_append, List.filterMap_map,
    List.filterMap_flatMap]
  rfl

mutual

/-- What is passed from a relation on and not skipped becomes an offshoot, in this order. -/
theorem map_seen_allWithin_toList (near : String) : (passage : Passage) →
    (Offshoot.allWithin passage.offshoot?.toList).map Offshoot.seen =
      (passage.passing near).filterMap fun (_, passage) => passage.offshoot?.map Offshoot.seen
  | skipped _ | dangling _ | again _ _ => rfl
  | onward seen other inside => by
    have hinside := map_seen_allWithin_offshoots other inside
    simp only [offshoot?, Option.toList_some, Offshoot.allWithin, Offshoot.within, passing,
      List.append_nil, List.map_cons, hinside, Offshoot.seen, Option.map_some,
      List.filterMap_cons]

/-- What is passed at an index and further on and not skipped becomes an offshoot, in this order. -/
theorem map_seen_allWithin_offshoots (near : String) : (passages : List Passage) →
    (Offshoot.allWithin (offshoots passages)).map Offshoot.seen =
      (allPassing near passages).filterMap fun (_, passage) =>
        passage.offshoot?.map Offshoot.seen
  | [] => rfl
  | first :: rest => by
    rw [offshoots, Offshoot.allWithin_append, List.map_append, map_seen_allWithin_toList near first,
      map_seen_allWithin_offshoots near rest, allPassing, List.filterMap_append]

end

section Kinds

variable (sentinel near : String) (passages : List Passage)

/-- Of what is reported on a tour, the relations that are skipped. -/
theorem filter_isSkipped_reports :
    (reports sentinel near passages).filter Event.isSkipped =
      (skips near passages).map Skip.report := by
  have hreport (near : String) (passage : Passage) :
      (passage.report sentinel near).filter Event.isSkipped =
        ((passage.skip? near).map Skip.report).toList := by
    cases passage with
    | skipped seen => cases hfar : seen.far? <;>
        simp [report, skip?, hfar, Skip.report, Event.isSkipped]
    | dangling | again | onward => exact Join.filter_isSkipped_buildReports _ _ _
  rw [reports, List.filter_flatMap, skips, List.map_filterMap, List.filterMap_eq_flatMap_toList]
  exact List.flatMap_congr fun passing _ => hreport _ _

/-- Of what is reported on a tour, the joins that are built. -/
theorem filter_isBuilt_reports :
    (reports sentinel near passages).filter Event.isBuilt =
      ((Offshoot.allWithin (offshoots passages)).map Offshoot.seen).map fun seen =>
        .joinBuilt seen.side.near.path := by
  have hreport (near : String) (passage : Passage) :
      (passage.report sentinel near).filter Event.isBuilt =
        ((passage.offshoot?.map Offshoot.seen).map fun seen =>
          .joinBuilt seen.side.near.path).toList := by
    cases passage with
    | skipped seen => cases hfar : seen.far? <;>
        simp [report, skip?, offshoot?, hfar, Skip.report, Event.isBuilt]
    | dangling | again | onward => exact Join.filter_isBuilt_buildReports _ _ _
  rw [reports, List.filter_flatMap, map_seen_allWithin_offshoots near, List.map_filterMap,
    List.filterMap_eq_flatMap_toList]
  exact List.flatMap_congr fun passing _ => hreport _ _

/-- On a tour nothing is dropped. -/
theorem filter_isDropped_reports :
    (reports sentinel near passages).filter Event.isDropped = [] := by
  have hreport (near : String) (passage : Passage) :
      (passage.report sentinel near).filter Event.isDropped = [] := by
    cases passage with
    | skipped seen => cases hfar : seen.far? <;>
        simp [report, skip?, hfar, Skip.report, Event.isDropped]
    | dangling | again | onward => exact Join.filter_isDropped_buildReports _ _ _
  rw [reports, List.filter_flatMap]
  exact List.flatMap_eq_nil_iff.mpr fun passing _ => hreport _ _

end Kinds

end Passage

namespace Graph

open Passage (offshoots skips)
open Relation

variable {graph : Graph} {sentinel : String} {index other one : String} {edge : Edge}
  {side : Orientation} {parent? : String → Option String}

/-- The joins in the join to an index are those nested in it, and itself. -/
theorem all_ownJoin (sentinel : String) (hfar : side.far.index? = some other)
    (joins : List (Join × Bool)) :
    ((graph.ownJoin sentinel side).attaching (Join.joinAttachments joins)).all.map Join.source =
      (joins.flatMap fun nested => nested.1.all).map Join.source ++ [side.near.path] := by
  simp [ownJoin_attaching hfar, Join.all, Attachment.allJoins_append,
    Attachment.allJoins_clauseAttachments, Attachment.allJoins_joinAttachments, Join.source]

/-- The offshoots of a tour are its joins, nested or not. -/
theorem Tours.sources_perm {seens : List Sighting} {visited entered visited' : List String}
    {passages : List Passage} (h : Tours graph seens visited entered passages visited')
    (sentinel : String) :
    (((Offshoot.allWithin (offshoots passages)).map Offshoot.seen).map
        fun seen => seen.side.near.path).Perm
      (((Offshoot.joins graph sentinel (offshoots passages)).flatMap
        fun nested => nested.1.all).map Join.source) := by
  induction h with
  | nil => exact .refl _
  | skipped _ _ _ _ ih => exact ih
  | dangling hfar _ ih =>
    simp only [offshoots, Passage.offshoot?, Option.toList_some, List.singleton_append,
      Offshoot.joins, Offshoot.join_leaf, ownJoin_of_index?_eq_none hfar]
    exact ih.cons _
  | again hfar _ _ ih =>
    have hall := @all_ownJoin graph _ _ sentinel hfar []
    simp only [offshoots, Passage.offshoot?, Option.toList_some, List.singleton_append,
      Offshoot.joins, Offshoot.join, List.flatMap_cons, List.map_append, hall]
    exact ih.cons _
  | onward hfar _ _ _ _ ihInside ihRest =>
    simp only [offshoots, Passage.offshoot?, Option.toList_some, Offshoot.joins, Offshoot.join,
      List.flatMap_cons, List.map_append, all_ownJoin sentinel hfar, Offshoot.allWithin,
      Offshoot.within, Offshoot.seen, List.map_cons, List.cons_append]
    rw [List.append_assoc, List.singleton_append]
    exact ((ihInside.append ihRest).cons _).trans List.perm_middle.symm

/-- What an index skips of what it sees: relations that do not lead to a child. -/
def skip? (parent? : String → Option String) (index : String) (seen : Sighting) : Option Skip :=
  seen.far?.bind fun other =>
    if parent? other = some index then none else some ⟨index, other, seen⟩

/-- How the relation at a place is skipped, as an index sees it. -/
def skipAt? (graph : Graph) (parent? : String → Option String) (position : Nat)
    (index : String) : Option Skip :=
  graph.relations[position]?.bind fun edge => (edge.orient? index).bind fun side =>
    skip? parent? index ⟨position, edge, side⟩

section Skipping

variable (parent?) (position : Nat) (hedge : graph.relations[position]? = some edge)

include hedge

/-- A relation that does not lead to a child is skipped. -/
theorem exists_skipAt?_eq_some (hjoins : edge.Joins one other)
    (hparent : parent? other ≠ some one) :
    ∃ side, graph.skipAt? parent? position one = some ⟨one, other, ⟨position, edge, side⟩⟩ := by
  obtain ⟨side, hside, hfar⟩ := hjoins.orient?
  exact ⟨side, by simp [skipAt?, hedge, hside, skip?, Sighting.far?, hfar, hparent]⟩

/-- A relation that leads to a child is not skipped. -/
theorem skipAt?_of_child (hjoins : edge.Joins one other) (hparent : parent? other = some one) :
    graph.skipAt? parent? position one = none := by
  obtain ⟨side, hside, hfar⟩ := hjoins.orient?
  simp [skipAt?, hedge, hside, skip?, Sighting.far?, hfar, hparent]

/-- A relation without a far index is not skipped. -/
theorem skipAt?_of_dangling (hside : edge.orient? index = some side)
    (hfar : side.far.index? = none) : graph.skipAt? parent? position index = none := by
  simp [skipAt?, hedge, hside, skip?, Sighting.far?, hfar]

/-- A relation is not skipped where it is not seen. -/
theorem skipAt?_of_orient?_eq_none (hside : edge.orient? index = none) :
    graph.skipAt? parent? position index = none := by
  simp [skipAt?, hedge, hside]

/-- A relation between two indices is not skipped at a third one. -/
theorem skipAt?_of_ne (hjoins : edge.Joins one other) (hone : index ≠ one)
    (hother : index ≠ other) : graph.skipAt? parent? position index = none := by
  refine skipAt?_of_orient?_eq_none parent? position hedge ?_
  cases hside : edge.orient? index with
  | none => rfl
  | some side =>
    rcases hjoins.eq_of_orient? hside with ⟨heq, -⟩ | ⟨heq, -⟩
    · exact absurd heq hone
    · exact absurd heq hother

end Skipping

variable {stops : List Stop}

/-- Whether a relation that is passed at a stop is skipped is told from the tree. -/
theorem Toured.skip?_eq (h : graph.Toured stops) {stop : Stop} (hstop : stop ∈ stops)
    {passage : Passage} (hmem : passage ∈ stop.passages) :
    passage.skip? stop.index = skip? (parentIn? stops) stop.index passage.seen := by
  have hoffshoot := h.offshoot?_eq hstop hmem
  unfold offshoot? at hoffshoot
  unfold skip?
  cases hfar : passage.seen.far? with
  | none =>
    rw [hfar] at hoffshoot
    cases passage with
    | skipped => cases hoffshoot
    | dangling | again | onward => rfl
  | some other =>
    rw [hfar] at hoffshoot
    by_cases hparent : parentIn? stops other = some stop.index
    · cases passage with
      | skipped => simp [Passage.offshoot?, hparent] at hoffshoot
      | dangling | again | onward => simp [Passage.skip?, hparent]
    · cases passage with
      | skipped seen =>
        change seen.far? = some other at hfar
        simp [Passage.skip?, Passage.seen, hfar, hparent]
      | dangling | again | onward => simp [Passage.offshoot?, hparent] at hoffshoot

/-- What is skipped at a stop is told from the tree. -/
theorem Toured.filterMap_skip? (h : graph.Toured stops) {stop : Stop} (hstop : stop ∈ stops) :
    stop.passages.filterMap (Passage.skip? stop.index) =
      (graph.sightings stop.index).filterMap (skip? (parentIn? stops) stop.index) := by
  obtain ⟨before, after, htour⟩ := h.tours stop hstop
  rw [← htour.map_seen, List.filterMap_map]
  exact List.filterMap_congr fun passage hmem => h.skip?_eq hstop hmem

/-- Among different values, what only two of them give is given by each. -/
theorem filterMap_perm_pair {α β : Type} [DecidableEq α] {values : List α} (hnodup : values.Nodup)
    {one other : α} (hone : one ∈ values) (hother : other ∈ values) (hne : one ≠ other)
    {give? : α → Option β} {given given' : β} (hgiven : give? one = some given)
    (hgiven' : give? other = some given')
    (hnone : ∀ value, value ≠ one → value ≠ other → give? value = none) :
    (values.filterMap give?).Perm [given, given'] := by
  have hrest : other ∈ values.erase one := (List.mem_erase_of_ne hne.symm).mpr hother
  have hperm : values.Perm (one :: other :: (values.erase one).erase other) :=
    (List.perm_cons_erase hone).trans ((List.perm_cons_erase hrest).cons one)
  refine (hperm.filterMap give?).trans (.of_eq ?_)
  rw [List.filterMap_cons_some hgiven, List.filterMap_cons_some hgiven']
  refine congrArg (given :: given' :: ·) (List.filterMap_eq_nil_iff.mpr fun value hvalue => ?_)
  obtain ⟨hvalueOther, hvalue⟩ := (hnodup.erase one).mem_erase_iff.mp hvalue
  exact hnone value (hnodup.mem_erase_iff.mp hvalue).1 hvalueOther

/-- How often each relation of a graph is skipped, and from which ends. -/
structure SkipsEach (graph : Graph) (parent? : String → Option String) (skips : List Skip) :
    Prop where
  /-- A relation to a child is skipped once, by the child. -/
  child : ∀ position edge side index other, graph.relations[position]? = some edge →
    edge.orient? index = some side → side.far.index? = some other → parent? other = some index →
    Skip.along position skips = [(other, index)]
  /-- Any other relation between two indices of the component is skipped twice, once by each. -/
  kin : ∀ position edge one other, graph.relations[position]? = some edge →
    edge.Joins one other → graph.Connected one → graph.Connected other →
    parent? other ≠ some one → parent? one ≠ some other →
    (Skip.along position skips).Perm [(one, other), (other, one)]
  /-- A relation from an index of the component to an endpoint without one is not skipped. -/
  dangling : ∀ position edge side index, graph.relations[position]? = some edge →
    edge.orient? index = some side → side.far.index? = none → graph.Connected index →
    Skip.along position skips = []
  /-- A relation that does not touch the component is not skipped. -/
  apart : ∀ position, (∀ edge, graph.relations[position]? = some edge →
      ∀ index, graph.Connected index → edge.orient? index = none) →
    Skip.along position skips = []

section SkipsOfStops

variable (h : graph.Toured stops) {skips : List Skip} (hskips : skips.Perm
  (stops.flatMap fun stop => stop.passages.filterMap (Passage.skip? stop.index)))

include h hskips

/-- The relation at a place is skipped by the indices that see it and do not join it. -/
theorem Toured.along_skips_perm (position : Nat) :
    (Skip.along position skips).Perm
      (((stops.map Stop.index).filterMap (graph.skipAt? (parentIn? stops) position)).map
        fun skip => (skip.near, skip.far)) := by
  have hplace (index : String) (seen : Sighting) (skip : Skip)
      (hskip : skip? (parentIn? stops) index seen = some skip) :
      skip.seen.position = seen.position := by
    obtain ⟨other, -, hskip⟩ := Option.bind_eq_some_iff.mp hskip
    split at hskip <;> cases hskip
    rfl
  refine ((hskips.filter _).trans (.of_eq ?_)).map _
  rw [List.filter_flatMap, List.filterMap_map, List.filterMap_eq_flatMap_toList]
  refine List.flatMap_congr fun stop hstop => ?_
  rw [h.filterMap_skip? hstop]
  exact filter_filterMap_place (hplace stop.index) position stop.index

/-- A relation that no index skips is not skipped. -/
theorem Toured.along_skips_eq_nil {position : Nat}
    (hnone : ∀ index, graph.Connected index →
      graph.skipAt? (parentIn? stops) position index = none) : Skip.along position skips = [] := by
  have hperm := h.along_skips_perm hskips position
  rw [List.filterMap_eq_nil_iff.mpr] at hperm
  · exact hperm.eq_nil
  · intro index hindex
    exact hnone index ((h.connected_iff index).mpr (List.mem_map.mp hindex))

/-- The tour of a component tells how often each relation is skipped. -/
theorem Toured.skipsEach (hcheck : graph.check = .ok ()) :
    graph.SkipsEach (parentIn? stops) skips where
  child := by
    intro position edge side index other hedge hside hfar hparent
    obtain ⟨hconnected, -, -⟩ := h.spanningTree.adjacent other index hparent
    have hjoins := Edge.joins_of_orient? hside hfar
    obtain ⟨side', hskip⟩ := exists_skipAt?_eq_some (parentIn? stops) position hedge hjoins.symm
      (h.spanningTree.asymm hparent)
    obtain ⟨stop, hstop, rfl⟩ := (h.connected_iff other).mp hconnected
    have hnone : ∀ other' ∈ stops, other'.index ≠ stop.index →
        graph.skipAt? (parentIn? stops) position other'.index = none := by
      intro other' _ hne
      by_cases hindex : other'.index = index
      · rw [hindex]
        exact skipAt?_of_child _ position hedge hjoins hparent
      · exact skipAt?_of_ne _ position hedge hjoins hindex hne
    have honly := filterMap_index_eq_singleton h.nodup hstop hskip hnone
    have hperm := h.along_skips_perm hskips position
    rw [List.filterMap_map] at hperm
    exact List.perm_singleton.mp (hperm.trans (.of_eq (congrArg (List.map _) honly)))
  kin := by
    intro position edge one other hedge hjoins hone hother hnotChild hnotParent
    have hne : one ≠ other := by
      rintro rfl
      exact not_adjacent_self hcheck one ⟨edge, List.mem_of_getElem? hedge, hjoins⟩
    obtain ⟨side, hskip⟩ := exists_skipAt?_eq_some (parentIn? stops) position hedge hjoins hnotChild
    obtain ⟨side', hskip'⟩ :=
      exists_skipAt?_eq_some (parentIn? stops) position hedge hjoins.symm hnotParent
    have hpair := filterMap_perm_pair h.nodup (List.mem_map.mpr ((h.connected_iff one).mp hone))
      (List.mem_map.mpr ((h.connected_iff other).mp hother)) hne hskip hskip'
      fun index => skipAt?_of_ne _ position hedge hjoins
    exact (h.along_skips_perm hskips position).trans (hpair.map _)
  dangling := by
    intro position edge side index hedge hside hfar _
    refine h.along_skips_eq_nil hskips fun index' _ => ?_
    cases hside' : edge.orient? index' with
    | none => exact skipAt?_of_orient?_eq_none _ position hedge hside'
    | some side' =>
      have hindex := Edge.eq_of_orient?_of_dangling hside hfar hside'
      subst hindex
      exact skipAt?_of_dangling _ position hedge hside hfar
  apart := by
    intro position happart
    refine h.along_skips_eq_nil hskips fun index hindex => ?_
    cases hedge : graph.relations[position]? with
    | none => rw [skipAt?, hedge, Option.bind_none]
    | some edge =>
      exact skipAt?_of_orient?_eq_none _ position hedge (happart edge hedge index hindex)

/-- What is skipped at some stops are relations that their indices see. -/
theorem Toured.mem_sightings_of_mem_skips {skip : Skip} (hskip : skip ∈ skips) :
    skip.seen ∈ graph.sightings skip.near ∧ skip.seen.far? = some skip.far := by
  obtain ⟨stop, hstop, hskip⟩ := List.mem_flatMap.mp (hskips.mem_iff.mp hskip)
  rw [h.filterMap_skip? hstop] at hskip
  obtain ⟨seen, hseen, hskip⟩ := List.mem_filterMap.mp hskip
  obtain ⟨other, hfar, hskip⟩ := Option.bind_eq_some_iff.mp hskip
  split at hskip <;> cases hskip
  exact ⟨hseen, hfar⟩

end SkipsOfStops

/-- How the joins of a graph and the events that it reports account for its relations. -/
structure Trace (graph : Graph) (sentinel : String) (clauses : List Json) (events : List Event)
    (parent? : String → Option String) (leaving : String → List Offshoot)
    (component : List String) (skips : List Skip) : Prop where
  /-- The component of the focus, each index once, and a tree that spans it. -/
  nodup_component : component.Nodup
  mem_component_iff : ∀ index, index ∈ component ↔ graph.Connected index
  tree : graph.SpanningTree parent?
  /-- The joins that the tree gives, and what each relation gives. -/
  clauses_eq : clauses = Join.clauses (Offshoot.joins graph sentinel (leaving graph.focus))
  joins : graph.JoinsEach sentinel parent? leaving
  /-- The relations that are skipped are reported one by one. Each is told by the place where an
  index of the component sees it. -/
  skipped : events.filter Event.isSkipped = skips.map Skip.report
  seen : ∀ skip ∈ skips, skip.seen ∈ graph.sightings skip.near ∧ skip.seen.far? = some skip.far
  skips : graph.SkipsEach parent? skips
  /-- As many joins are built as there are, nested or not, from the same fields. -/
  built : (events.filter Event.isBuilt).Perm
    (((Offshoot.joins graph sentinel (leaving graph.focus)).flatMap fun nested =>
      nested.1.all).map fun join => .joinBuilt join.source)
  /-- Nothing is dropped. -/
  dropped : events.filter Event.isDropped = []
  /-- The last event counts the indices of the component and the clauses. -/
  last : events.getLast? =
    some (.graphCompiled graph.focus graph.relations.length component.length clauses.length)

/-- A graph that compiles reports what the walk does, and then itself. -/
theorem compile_eq_of_walkFrom (hcheck : graph.check = .ok ()) (hfocus : graph.checkFocus = .ok ())
    {walked : Walked}
    (hwalked : (graph.walkFrom sentinel maxJoinDepth graph.focus [graph.focus]).result =
      .ok walked) :
    graph.compile sentinel =
      ⟨(graph.walkFrom sentinel maxJoinDepth graph.focus [graph.focus]).events ++
        [.graphCompiled graph.focus graph.relations.length walked.visited.length
          walked.joins.length], .ok (Join.clauses walked.joins)⟩ := by
  have hchecked : (Traced.ofExcept (.ok ()) : Compilation Unit) = pure () := rfl
  rw [compile, joins, hcheck, hfocus, hchecked, pure_bind, pure_bind, bind_assoc,
    Traced.bind_of_ok hwalked]
  rfl

/-- **Every relation of the component of the focus is accounted for** by the joins of a graph that
compiles and by the events that it reports. -/
theorem trace_compile {clauses : List Json} (h : (graph.compile sentinel).result = .ok clauses) :
    ∃ parent? leaving component skips,
      graph.Trace sentinel clauses (graph.compile sentinel).events parent? leaving component
        skips := by
  have hresult := h
  rw [result_compile] at hresult
  obtain ⟨_, hcheck, hresult⟩ := bind_eq_ok hresult
  obtain ⟨_, hfocus, hresult⟩ := bind_eq_ok hresult
  obtain ⟨walked, hwalked, hresult⟩ := bind_eq_ok hresult
  cases hresult
  obtain ⟨passages, htour, hjoins⟩ := tours_of_walkFrom graph sentinel maxJoinDepth _ _ _ hwalked
  have htoured := toured_of_tours htour hcheck
  have hskips := Passage.skips_perm graph passages
  have hleaving := htoured.leavingAt_index List.mem_cons_self
  simp only at hleaving
  rw [compile_eq_of_walkFrom hcheck hfocus hwalked, htour.events_walkFrom_eq hwalked]
  refine ⟨parentIn? (wholeTour graph passages), leavingAt (wholeTour graph passages),
    (wholeTour graph passages).map Stop.index, skips graph.focus passages, ?_⟩
  exact {
    nodup_component := htoured.nodup
    mem_component_iff := fun index => by rw [htoured.connected_iff, List.mem_map]
    tree := htoured.spanningTree
    clauses_eq := by rw [hleaving, hjoins]
    joins := htoured.joinsEach sentinel
    skipped := by
      rw [List.filter_append, Passage.filter_isSkipped_reports]
      exact List.append_nil _
    seen := fun skip hskip => htoured.mem_sightings_of_mem_skips hskips hskip
    skips := htoured.skipsEach hskips hcheck
    built := by
      have hperm := (htour.sources_perm sentinel).map Event.joinBuilt
      have hlast (focus : String) (relations visited joins : Nat) :
          [Event.graphCompiled focus relations visited joins].filter Event.isBuilt = [] := rfl
      rw [List.filter_append, Passage.filter_isBuilt_reports, hleaving, hlast, List.append_nil]
      simpa only [List.map_map, Function.comp_def] using hperm
    dropped := by
      rw [List.filter_append, Passage.filter_isDropped_reports]
      rfl
    last := by
      have hvisited : walked.visited.length = (wholeTour graph passages).length := by
        rw [htour.visited_eq graph.focus]
        simp [wholeTour, Passage.children]
      have hclauses : walked.joins.length = (Join.clauses walked.joins).length :=
        List.length_map _ |>.symm
      rw [List.getLast?_concat, List.length_map, hvisited, hclauses] }

/-- The indices that a skipped relation is reported with. Other events have none. -/
def skippedEnds : Event → String × String
  | .relationSkipped near far _ => (near, far)
  | _ => ("", "")

/-- Of the triangle two sides give joins, one of them twice, and the relation without a far index
gives another. These sides are skipped once for each join, and the third one twice. -/
theorem trace_compile_triangle : ∃ clauses parent? leaving component skips,
    (triangle.compile "none").result = .ok clauses ∧
      triangle.Trace "none" clauses (triangle.compile "none").events parent? leaving component
        skips ∧
      component.length = 3 ∧
      skips.map (fun skip => (skip.near, skip.far)) =
        [("b", "a"), ("c", "b"), ("c", "a"), ("b", "a"), ("a", "c")] := by
  have hcompile : ∃ clauses, (triangle.compile "none").result = .ok clauses := ⟨_, rfl⟩
  obtain ⟨clauses, hclauses⟩ := hcompile
  obtain ⟨parent?, leaving, component, skips, htrace⟩ := trace_compile hclauses
  refine ⟨clauses, parent?, leaving, component, skips, hclauses, htrace, ?_, ?_⟩
  · have hlast := htrace.last
    have hvisited : (triangle.compile "none").events.getLast? =
        some (.graphCompiled "a" 6 3 2) := rfl
    rw [hvisited] at hlast
    exact (Event.graphCompiled.inj (Option.some.inj hlast)).2.2.1.symm
  · -- The ends of what is skipped are told in the reports.
    have hskipped := congrArg (List.map skippedEnds) htrace.skipped
    rw [List.map_map] at hskipped
    exact hskipped.symm

end Graph

end Semijoin
