import Semijoin.Proofs.Graph.Descent
import Semijoin.Proofs.Graph.Neighbours
import Mathlib.Data.List.Nodup
import Mathlib.Logic.Relation

/-!
# The component of the focus

A tour from the focus stops once at every index that is connected with the focus, and nowhere
else. The stops form a tree. A relation that is skipped never leads across the tree, because a
tour leaves an index only when all its neighbours have been visited.
-/

namespace Semijoin

open Relation

namespace Graph

variable {graph : Graph} {above : String → String → Prop} {ancestors before : List String}
  {index other : String} {visited visited' : List String}

/-- The indices that are connected with the focus by relations. -/
def Connected (graph : Graph) (index : String) : Prop :=
  ReflTransGen graph.Adjacent graph.focus index

/-- The indices visited have only visited neighbours, unless they are still being toured. -/
def Settled (graph : Graph) (toured visited : List String) : Prop :=
  ∀ index ∈ visited, index ∉ toured → ∀ other, graph.Adjacent index other → other ∈ visited

/-- One of two indices is a proper ancestor of the other. -/
def Kin (above : String → String → Prop) (one other : String) : Prop :=
  TransGen above one other ∨ TransGen above other one

/-- What holds while the relations of an index are toured. The indices above it are still being
toured too, and those visited before it have only neighbours that were visited before it. -/
structure Underway (graph : Graph) (above : String → String → Prop)
    (ancestors before : List String) (index : String) (visited : List String) : Prop where
  fresh : index ∉ before
  below : ∀ ancestor ∈ ancestors, TransGen above ancestor index
  settled_before : graph.Settled ancestors before
  settled : graph.Settled (index :: ancestors) visited
  descended : ∀ other ∈ visited, other ∈ before ∨ ReflTransGen above index other

/-- A neighbour that has been visited is above or below. -/
theorem Underway.kin (h : Underway graph above ancestors before index visited)
    (hloop : ¬ graph.Adjacent index index) (hadjacent : graph.Adjacent index other)
    (hvisited : other ∈ visited) : Kin above index other := by
  have hne : other ≠ index := by
    rintro rfl
    exact hloop hadjacent
  rcases h.descended other hvisited with hbefore | hbelow
  · by_cases hancestor : other ∈ ancestors
    · exact .inr (h.below other hancestor)
    · exact absurd (h.settled_before other hbefore hancestor index hadjacent.symm) h.fresh
  · rcases reflTransGen_iff_eq_or_transGen.mp hbelow with heq | hbelow
    · exact absurd heq hne
    · exact .inl hbelow

/-- What holds when a new neighbour is entered. -/
theorem Underway.enter (h : Underway graph above ancestors before index visited)
    (habove : above index other) (hnew : other ∉ visited) :
    Underway graph above (index :: ancestors) visited other (other :: visited) where
  fresh := hnew
  below := by
    intro ancestor hancestor
    rcases List.mem_cons.mp hancestor with rfl | hancestor
    · exact .single habove
    · exact (h.below ancestor hancestor).tail habove
  settled_before := h.settled
  settled := by
    intro one hone htoured neighbour hadjacent
    rw [List.mem_cons, not_or] at htoured
    have hvisited := (List.mem_cons.mp hone).resolve_left htoured.1
    exact List.mem_cons_of_mem _ (h.settled one hvisited htoured.2 neighbour hadjacent)
  descended := by
    intro one hone
    rcases List.mem_cons.mp hone with rfl | hone
    · exact .inr .refl
    · exact .inl hone

/-- What holds when the tour comes back from a neighbour. -/
theorem Underway.leave (h : Underway graph above ancestors before index visited)
    (habove : above index other)
    (hinside : Underway graph above (index :: ancestors) visited other visited')
    (hneighbours : ∀ neighbour, graph.Adjacent other neighbour → neighbour ∈ visited') :
    Underway graph above ancestors before index visited' where
  fresh := h.fresh
  below := h.below
  settled_before := h.settled_before
  settled := by
    intro one hone htoured neighbour hadjacent
    by_cases heq : one = other
    · exact hneighbours neighbour (heq ▸ hadjacent)
    · exact hinside.settled one hone (List.not_mem_cons_of_ne_of_not_mem heq htoured)
        neighbour hadjacent
  descended := by
    intro one hone
    rcases hinside.descended one hone with hvisited | hbelow
    · exact h.descended one hvisited
    · exact .inr (.head habove hbelow)

/-- What is skipped leads up or down the tree. -/
def SkipsToKin (above : String → String → Prop) (index : String) (passages : List Passage) :
    Prop :=
  ∀ seen, .skipped seen ∈ passages → ∃ other, seen.far? = some other ∧ Kin above index other

open Passage (allStops)

variable {seens : List Sighting} {entered : List String} {passages : List Passage}

/-- A tour that has passed everything that an index sees has visited all its neighbours. -/
theorem Tours.adjacent_mem
    (h : Tours graph (graph.sightings index) visited [] passages visited')
    (hadjacent : graph.Adjacent index other) : other ∈ visited' := by
  obtain ⟨seen, hseen, hfar⟩ := adjacent_iff.mp hadjacent
  exact h.far_mem (by simp) hseen hfar

/-- A relation that leads onward joins the two indices. -/
theorem Tours.adjacent_of_onward_mem
    (h : Tours graph (graph.sightings index) visited entered passages visited')
    {seen : Sighting} {inside : List Passage} (hmem : .onward seen other inside ∈ passages) :
    graph.Adjacent index other := by
  have hseen : seen ∈ graph.sightings index := by
    rw [← h.map_seen]
    exact List.mem_map_of_mem hmem
  have hfar := (h.of_onward_mem (pairwise_sightings _ _) hmem).1
  exact adjacent_iff.mpr ⟨seen, hseen, hfar⟩

/-- While a tour passes relations, what holds under way goes on to hold, and whatever is skipped
leads up or down the tree. -/
theorem Tours.underway (hcheck : graph.check = .ok ())
    (h : Tours graph seens visited entered passages visited')
    (hseens : ∀ seen ∈ seens, seen ∈ graph.sightings index)
    (habove : ∀ stop ∈ allStops index passages, ∀ parent, stop.parent? = some parent →
      above parent stop.index)
    (hunderway : Underway graph above ancestors before index visited) :
    Underway graph above ancestors before index visited' ∧
      SkipsToKin above index passages ∧
      ∀ stop ∈ allStops index passages, SkipsToKin above stop.index stop.passages := by
  induction h generalizing ancestors before index with
  | nil => exact ⟨hunderway, fun _ hmem => (nomatch hmem), fun _ hstop => (nomatch hstop)⟩
  | skipped hfar _ hvisited _ ih =>
    obtain ⟨hafter, hskips, hstops⟩ :=
      ih (fun seen hseen => hseens seen (List.mem_cons_of_mem _ hseen))
        (by simpa [allStops, Passage.stops] using habove) hunderway
    refine ⟨hafter, fun seen hmem => ?_, by simpa [allStops, Passage.stops] using hstops⟩
    rcases List.mem_cons.mp hmem with heq | hmem
    · cases heq
      have hadjacent := adjacent_iff.mpr ⟨_, hseens _ List.mem_cons_self, hfar⟩
      exact ⟨_, hfar, hunderway.kin (not_adjacent_self hcheck _) hadjacent hvisited⟩
    · exact hskips seen hmem
  | dangling _ _ ih | again _ _ _ ih =>
    obtain ⟨hafter, hskips, hstops⟩ :=
      ih (fun seen hseen => hseens seen (List.mem_cons_of_mem _ hseen))
        (by simpa [allStops, Passage.stops] using habove) hunderway
    exact ⟨hafter, fun seen hmem => hskips seen (by simpa using hmem),
      by simpa [allStops, Passage.stops] using hstops⟩
  | onward _ _ hnew hinside _ ihInside ihRest =>
    simp only [allStops, Passage.stops, List.mem_append, List.mem_cons] at habove
    have hlink := habove _ (.inl (.inl rfl)) _ rfl
    obtain ⟨hreturn, hskipsInside, hstopsInside⟩ :=
      ihInside (fun _ hseen => hseen) (fun stop hstop => habove stop (.inl (.inr hstop)))
        (hunderway.enter hlink hnew)
    obtain ⟨hafter, hskips, hstops⟩ :=
      ihRest (fun seen hseen => hseens seen (List.mem_cons_of_mem _ hseen))
        (fun stop hstop => habove stop (.inr hstop))
        (hunderway.leave hlink hreturn fun neighbour hadjacent => hinside.adjacent_mem hadjacent)
    refine ⟨hafter, fun seen hmem => hskips seen (by simpa using hmem), fun stop hstop => ?_⟩
    simp only [allStops, Passage.stops, List.mem_append, List.mem_cons] at hstop
    rcases hstop with (rfl | hstop) | hstop
    · exact hskipsInside
    · exact hstopsInside stop hstop
    · exact hstops stop hstop

/-- A stop of a tour with the index given. -/
def stopAt? (stops : List Stop) (index : String) : Option Stop :=
  stops.find? fun stop => decide (stop.index = index)

/-- The index from which another is entered. -/
def parentIn? (stops : List Stop) (index : String) : Option String :=
  (stopAt? stops index).bind Stop.parent?

/-- Where no two stops have the same index, a stop is found by its index. -/
theorem stopAt?_index {stops : List Stop} (hnodup : (stops.map Stop.index).Nodup) {stop : Stop}
    (hstop : stop ∈ stops) : stopAt? stops stop.index = some stop := by
  induction stops with
  | nil => cases hstop
  | cons first rest ih =>
    rw [List.map_cons, List.nodup_cons] at hnodup
    rcases List.mem_cons.mp hstop with rfl | hstop
    · simp [stopAt?]
    · have hne : first.index ≠ stop.index := by
        intro heq
        exact hnodup.1 (heq ▸ List.mem_map_of_mem hstop)
      rw [stopAt?, List.find?_cons_of_neg (by simpa using hne)]
      exact ih hnodup.2 hstop

/-- A stop that is found is one of the stops, and has the index. -/
theorem stopAt?_eq_some {stops : List Stop} {stop : Stop} (h : stopAt? stops index = some stop) :
    stop ∈ stops ∧ stop.index = index :=
  ⟨List.mem_of_find?_eq_some h, by simpa using List.find?_some h⟩

/-- The stops of a tour of the whole component of the focus. -/
structure Toured (graph : Graph) (stops : List Stop) : Prop where
  nodup : (stops.map Stop.index).Nodup
  /-- The tour starts at the focus, and what leaves the focus holds what leaves the stops. -/
  focus : ∃ passages, ⟨graph.focus, none, passages⟩ ∈ stops ∧
    (Offshoot.allWithin (Passage.offshoots passages)).Perm
      (stops.flatMap fun stop => Passage.offshoots stop.passages)
  /-- At every stop all relations of the index are passed. -/
  tours : ∀ stop ∈ stops, ∃ before after,
    Tours graph (graph.sightings stop.index) (stop.index :: before) [] stop.passages after
  /-- A stop other than the focus is entered from another one. -/
  entry : ∀ stop ∈ stops, stop.index = graph.focus ∧ stop.parent? = none ∨
    ∃ outer ∈ stops, ∃ seen, stop.parent? = some outer.index ∧
      .onward seen stop.index stop.passages ∈ outer.passages
  /-- Where a relation leads onward there is a stop. -/
  onward : ∀ stop ∈ stops, ∀ seen other inside, .onward seen other inside ∈ stop.passages →
    ⟨other, some stop.index, inside⟩ ∈ stops
  /-- What is skipped leads up or down the tree. -/
  kin : ∀ stop ∈ stops,
    SkipsToKin (fun one other => parentIn? stops other = some one) stop.index stop.passages
  /-- The stops are the indices connected with the focus. -/
  connected_iff : ∀ index, graph.Connected index ↔ ∃ stop ∈ stops, stop.index = index
  /-- Every stop is below the focus. -/
  rooted : ∀ stop ∈ stops,
    ReflTransGen (fun one other => parentIn? stops other = some one) graph.focus stop.index

section WholeTour

/-- The stops of a tour from the focus, the focus first. -/
def wholeTour (graph : Graph) (passages : List Passage) : List Stop :=
  ⟨graph.focus, none, passages⟩ :: allStops graph.focus passages

variable (h : Tours graph (graph.sightings graph.focus) [graph.focus] [] passages visited')

include h

/-- No index is entered twice. -/
theorem Tours.nodup_wholeTour : ((wholeTour graph passages).map Stop.index).Nodup := by
  have hreverse := h.nodup (List.nodup_singleton graph.focus)
  rwa [h.visited_eq graph.focus, ← List.reverse_cons, List.nodup_reverse] at hreverse

/-- The indices visited are those of the stops. -/
theorem Tours.mem_visited_iff :
    index ∈ visited' ↔ ∃ stop ∈ wholeTour graph passages, stop.index = index := by
  rw [h.visited_eq graph.focus, ← List.reverse_cons, List.mem_reverse, ← List.mem_map]
  rfl

/-- At every stop all relations of the index are passed. -/
theorem Tours.tours_wholeTour : ∀ stop ∈ wholeTour graph passages, ∃ before after,
    Tours graph (graph.sightings stop.index) (stop.index :: before) [] stop.passages after := by
  intro stop hstop
  rcases List.mem_cons.mp hstop with rfl | hstop
  · exact ⟨[], _, h⟩
  · obtain ⟨before, after, -, htour, -⟩ := h.tours_of_mem graph.focus hstop
    exact ⟨before, after, htour⟩

/-- A stop other than the focus is entered from another one. -/
theorem Tours.entry_wholeTour : ∀ stop ∈ wholeTour graph passages,
    stop.index = graph.focus ∧ stop.parent? = none ∨
      ∃ outer ∈ wholeTour graph passages, ∃ seen, stop.parent? = some outer.index ∧
        .onward seen stop.index stop.passages ∈ outer.passages := by
  intro stop hstop
  rcases List.mem_cons.mp hstop with rfl | hstop
  · exact .inl ⟨rfl, rfl⟩
  · obtain ⟨seen, ⟨hparent, hpassed⟩ | ⟨outer, houter, hparent, hpassed⟩⟩ :=
      h.entry_of_mem graph.focus hstop
    · exact .inr ⟨_, List.mem_cons_self, seen, hparent, hpassed⟩
    · exact .inr ⟨outer, List.mem_cons_of_mem _ houter, seen, hparent, hpassed⟩

/-- Where a relation leads onward there is a stop. -/
theorem Tours.onward_wholeTour : ∀ stop ∈ wholeTour graph passages, ∀ seen other inside,
    .onward seen other inside ∈ stop.passages →
      ⟨other, some stop.index, inside⟩ ∈ wholeTour graph passages := by
  intro stop hstop seen other inside hpassed
  rcases List.mem_cons.mp hstop with rfl | hstop
  · exact List.mem_cons_of_mem _ (Passage.mem_allStops_of_onward_mem hpassed)
  · exact List.mem_cons_of_mem _ (h.mem_allStops graph.focus hstop hpassed)

/-- The parent of a stop is found from its index. -/
theorem Tours.parentIn?_wholeTour {stop : Stop} (hstop : stop ∈ wholeTour graph passages)
    {parent : String} (hparent : stop.parent? = some parent) :
    parentIn? (wholeTour graph passages) stop.index = some parent := by
  rw [parentIn?, stopAt?_index h.nodup_wholeTour hstop]
  exact hparent

/-- An index is a neighbour of its parent. -/
theorem Tours.adjacent_of_parentIn? {one other : String}
    (hparent : parentIn? (wholeTour graph passages) other = some one) :
    graph.Adjacent one other := by
  obtain ⟨stop, hfound, hone⟩ := Option.bind_eq_some_iff.mp hparent
  obtain ⟨hstop, rfl⟩ := stopAt?_eq_some hfound
  rcases h.entry_wholeTour stop hstop with ⟨-, hnone⟩ | ⟨outer, houter, seen, hsome, hpassed⟩
  · rw [hnone] at hone
    cases hone
  · obtain ⟨before, after, htour⟩ := h.tours_wholeTour outer houter
    rw [hsome] at hone
    cases hone
    exact htour.adjacent_of_onward_mem hpassed

/-- At the end of a tour from the focus everything but the focus is settled, and every skipped
relation leads up or down the tree. -/
theorem Tours.underway_wholeTour (hcheck : graph.check = .ok ()) :
    let above := fun one other => parentIn? (wholeTour graph passages) other = some one
    Underway graph above [] [] graph.focus visited' ∧
      ∀ stop ∈ wholeTour graph passages, SkipsToKin above stop.index stop.passages := by
  intro above
  have hinitial : Underway graph above [] [] graph.focus [graph.focus] := by
    refine ⟨by simp, by simp, by simp [Settled], by simp [Settled], fun other hother => ?_⟩
    rw [List.mem_singleton.mp hother]
    exact .inr .refl
  have habove : ∀ stop ∈ allStops graph.focus passages, ∀ parent, stop.parent? = some parent →
      above parent stop.index :=
    fun stop hstop parent hparent =>
      h.parentIn?_wholeTour (List.mem_cons_of_mem _ hstop) hparent
  obtain ⟨hafter, hskips, hskipsInside⟩ :=
    h.underway hcheck (fun _ hseen => hseen) habove hinitial
  refine ⟨hafter, fun stop hstop => ?_⟩
  rcases List.mem_cons.mp hstop with rfl | hstop
  · exact hskips
  · exact hskipsInside stop hstop

/-- A tour from the focus covers its component. -/
theorem toured_of_tours (hcheck : graph.check = .ok ()) :
    graph.Toured (wholeTour graph passages) := by
  obtain ⟨hafter, hkin⟩ := h.underway_wholeTour hcheck
  have hrooted : ∀ index ∈ visited', ReflTransGen
      (fun one other => parentIn? (wholeTour graph passages) other = some one) graph.focus index :=
    fun index hindex => (hafter.descended index hindex).resolve_left List.not_mem_nil
  refine ⟨h.nodup_wholeTour, ⟨passages, List.mem_cons_self, h.allWithin_perm graph.focus⟩,
    h.tours_wholeTour, h.entry_wholeTour, h.onward_wholeTour, hkin, ?_, ?_⟩
  · intro index
    rw [← h.mem_visited_iff]
    constructor
    · intro hconnected
      induction hconnected with
      | refl => exact h.mem_visited_iff.mpr ⟨_, List.mem_cons_self, rfl⟩
      | @tail one other _ hstep ih =>
        by_cases hone : one = graph.focus
        · exact h.adjacent_mem (hone ▸ hstep)
        · exact hafter.settled one ih (by simpa using hone) other hstep
    · intro hindex
      exact (hrooted index hindex).lift id fun _ _ => h.adjacent_of_parentIn?
  · intro stop hstop
    exact hrooted stop.index (h.mem_visited_iff.mpr ⟨stop, hstop, rfl⟩)

end WholeTour

end Graph

end Semijoin
