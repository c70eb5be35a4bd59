import Semijoin.Proofs.Graph.Tour
import Mathlib.Logic.Relation
import Mathlib.Tactic.ByContra

/-!
# The tree of a tour

The indices that a tour enters form a tree: each is linked to the index from which it was
entered. A relation that is skipped never leads across the tree, because a tour leaves an index
only when all its neighbours have been visited.
-/

namespace Semijoin

/-- An index where a tour stops, the index from which it is entered, and what is passed there. -/
structure Stop where
  index : String
  parent? : Option String
  passages : List Passage

namespace Passage

mutual

/-- The stops that a relation passed at an index leads to, from the outside inwards. -/
def stops (near : String) : Passage → List Stop
  | skipped _ | dangling _ | again _ _ => []
  | onward _ other inside => ⟨other, some near, inside⟩ :: allStops other inside

/-- The stops that the relations passed at an index lead to. -/
def allStops (near : String) : List Passage → List Stop
  | [] => []
  | first :: rest => first.stops near ++ allStops near rest

end

/-- The indices entered, in the order in which they are. -/
def children (near : String) (passages : List Passage) : List String :=
  (allStops near passages).map Stop.index

/-- The indices entered at a relation stand before those entered at later ones. -/
theorem children_cons (near : String) (first : Passage) (rest : List Passage) :
    children near (first :: rest) = (first.stops near).map Stop.index ++ children near rest := by
  simp [children, allStops]

/-- The index that a relation leads into stands before those entered from there. -/
theorem children_onward (near other : String) (seen : Sighting) (inside rest : List Passage) :
    children near (onward seen other inside :: rest) =
      other :: children other inside ++ children near rest := by
  simp [children, allStops, stops]

/-- Where a relation leads into an index there is a stop. -/
theorem mem_allStops_of_onward_mem {near other : String} {seen : Sighting}
    {inside passages : List Passage} (h : onward seen other inside ∈ passages) :
    ⟨other, some near, inside⟩ ∈ allStops near passages := by
  induction passages with
  | nil => cases h
  | cons first rest ih =>
    rw [allStops, List.mem_append]
    rcases List.mem_cons.mp h with rfl | h
    · exact .inl (by simp [stops])
    · exact .inr (ih h)

end Passage

namespace Graph

open Passage (allStops children offshoots)

variable {graph : Graph} {seens : List Sighting} {visited entered visited' : List String}
  {passages : List Passage}

/-- A tour passes exactly the relations that it is given. -/
theorem Tours.map_seen (h : Tours graph seens visited entered passages visited') :
    passages.map Passage.seen = seens := by
  induction h with
  | nil => rfl
  | skipped _ _ _ _ ih | dangling _ _ ih | again _ _ _ ih => simp [Passage.seen, ih]
  | onward _ _ _ _ _ _ ih => simp [Passage.seen, ih]

/-- The indices entered come on top of those visited before. -/
theorem Tours.visited_eq (h : Tours graph seens visited entered passages visited')
    (near : String) : visited' = (children near passages).reverse ++ visited := by
  induction h generalizing near with
  | nil => rfl
  | skipped _ _ _ _ ih | dangling _ _ ih | again _ _ _ ih =>
    rw [ih near, Passage.children_cons]
    rfl
  | @onward _ _ _ _ _ _ _ _ other _ _ _ _ _ ihInside ihRest =>
    rw [ihRest near, ihInside other, Passage.children_onward]
    simp

/-- Indices visited before stay visited. -/
theorem Tours.subset (h : Tours graph seens visited entered passages visited') :
    ∀ index ∈ visited, index ∈ visited' := by
  intro index hindex
  rw [h.visited_eq ""]
  exact List.mem_append_right _ hindex

/-- No index is entered twice. -/
theorem Tours.nodup (h : Tours graph seens visited entered passages visited')
    (hvisited : visited.Nodup) : visited'.Nodup := by
  induction h with
  | nil => exact hvisited
  | skipped _ _ _ _ ih | dangling _ _ ih | again _ _ _ ih => exact ih hvisited
  | onward _ _ hnew _ _ ihInside ihRest =>
    exact ihRest (ihInside (List.nodup_cons.mpr ⟨hnew, hvisited⟩))

/-- Every relation that a tour passes leads to an index visited in the end. -/
theorem Tours.far_mem (h : Tours graph seens visited entered passages visited')
    (hentered : ∀ index ∈ entered, index ∈ visited) {seen : Sighting} (hseen : seen ∈ seens)
    {other : String} (hfar : seen.far? = some other) : other ∈ visited' := by
  induction h with
  | nil => cases hseen
  | skipped hfar' _ hvisited hrest ih =>
    rcases List.mem_cons.mp hseen with rfl | hseen
    · rw [hfar] at hfar'
      cases hfar'
      exact hrest.subset _ hvisited
    · exact ih hentered hseen
  | dangling hfar' _ ih =>
    rcases List.mem_cons.mp hseen with rfl | hseen
    · rw [hfar] at hfar'
      cases hfar'
    · exact ih hentered hseen
  | again hfar' hmem hrest ih =>
    rcases List.mem_cons.mp hseen with rfl | hseen
    · rw [hfar] at hfar'
      cases hfar'
      exact hrest.subset _ (hentered _ hmem)
    · exact ih hentered hseen
  | onward hfar' _ _ hinside hrest _ ihRest =>
    rcases List.mem_cons.mp hseen with rfl | hseen
    · rw [hfar] at hfar'
      cases hfar'
      exact hrest.subset _ (hinside.subset _ List.mem_cons_self)
    · refine ihRest (fun index hindex => ?_) hseen
      rcases List.mem_cons.mp hindex with rfl | hindex
      · exact hinside.subset _ List.mem_cons_self
      · exact hinside.subset _ (List.mem_cons_of_mem _ (hentered index hindex))

/-- A relation leads onward into an index that is new, and no relation before it leads there. -/
theorem Tours.of_onward_mem (h : Tours graph seens visited entered passages visited')
    (hsorted : seens.Pairwise fun one other => one.position < other.position) {seen : Sighting}
    {other : String} {inside : List Passage} (hmem : .onward seen other inside ∈ passages) :
    seen.far? = some other ∧ other ∉ entered ∧ other ∉ visited ∧
      ∀ earlier ∈ seens, earlier.far? = some other → seen.position ≤ earlier.position := by
  induction h with
  | nil => cases hmem
  | skipped hfar _ hvisited _ ih =>
    obtain ⟨honward, hentered, hnew, hfirst⟩ := ih hsorted.of_cons (by simpa using hmem)
    refine ⟨honward, hentered, hnew, ?_⟩
    rintro earlier hearlier hsame
    rcases List.mem_cons.mp hearlier with rfl | hearlier
    · rw [hfar] at hsame
      cases hsame
      exact absurd hvisited hnew
    · exact hfirst earlier hearlier hsame
  | dangling hfar _ ih =>
    obtain ⟨honward, hentered, hnew, hfirst⟩ := ih hsorted.of_cons (by simpa using hmem)
    refine ⟨honward, hentered, hnew, ?_⟩
    rintro earlier hearlier hsame
    rcases List.mem_cons.mp hearlier with rfl | hearlier
    · rw [hfar] at hsame
      cases hsame
    · exact hfirst earlier hearlier hsame
  | again hfar hin _ ih =>
    obtain ⟨honward, hentered, hnew, hfirst⟩ := ih hsorted.of_cons (by simpa using hmem)
    refine ⟨honward, hentered, hnew, ?_⟩
    rintro earlier hearlier hsame
    rcases List.mem_cons.mp hearlier with rfl | hearlier
    · rw [hfar] at hsame
      cases hsame
      exact absurd hin hentered
    · exact hfirst earlier hearlier hsame
  | onward hfar hentered' hnew' hinside _ _ ih =>
    rcases List.mem_cons.mp hmem with heq | hmem
    · cases heq
      refine ⟨hfar, hentered', hnew', ?_⟩
      rintro earlier hearlier -
      rcases List.mem_cons.mp hearlier with rfl | hearlier
      · exact Nat.le_refl _
      · exact Nat.le_of_lt (List.rel_of_pairwise_cons hsorted hearlier)
    · obtain ⟨honward, hentered, hnew, hfirst⟩ := ih hsorted.of_cons hmem
      rw [List.mem_cons, not_or] at hentered
      refine ⟨honward, hentered.2, ?_, ?_⟩
      · exact fun hvisited => hnew (hinside.subset _ (List.mem_cons_of_mem _ hvisited))
      · rintro earlier hearlier hsame
        rcases List.mem_cons.mp hearlier with rfl | hearlier
        · rw [hfar] at hsame
          cases hsame
          exact absurd rfl hentered.1
        · exact hfirst earlier hearlier hsame

/-- A relation is skipped when its far index is visited from elsewhere. -/
theorem Tours.of_skipped_mem (h : Tours graph seens visited entered passages visited')
    (hsorted : seens.Pairwise fun one other => one.position < other.position) {seen : Sighting}
    (hmem : .skipped seen ∈ passages) :
    ∃ other, seen.far? = some other ∧ other ∉ entered ∧
      ∀ seen' inside, .onward seen' other inside ∉ passages := by
  induction h with
  | nil => cases hmem
  | skipped hfar hentered hvisited hrest ih =>
    rcases List.mem_cons.mp hmem with heq | hmem
    · cases heq
      refine ⟨_, hfar, hentered, fun seen' inside honward => ?_⟩
      have hnew := (hrest.of_onward_mem hsorted.of_cons (by simpa using honward)).2.2.1
      exact hnew hvisited
    · obtain ⟨other, hother, hnot, hnone⟩ := ih hsorted.of_cons hmem
      exact ⟨other, hother, hnot, fun seen' inside => by simpa using hnone seen' inside⟩
  | dangling _ _ ih | again _ _ _ ih =>
    obtain ⟨other, hother, hnot, hnone⟩ := ih hsorted.of_cons (by simpa using hmem)
    exact ⟨other, hother, hnot, fun seen' inside => by simpa using hnone seen' inside⟩
  | onward _ _ _ _ _ _ ih =>
    obtain ⟨other, hother, hnot, hnone⟩ := ih hsorted.of_cons (by simpa using hmem)
    rw [List.mem_cons, not_or] at hnot
    refine ⟨other, hother, hnot.2, fun seen' inside hmem' => ?_⟩
    rcases List.mem_cons.mp hmem' with heq | hmem'
    · cases heq
      exact hnot.1 rfl
    · exact hnone seen' inside hmem'

/-- A relation joins once more with an index that was entered by an earlier one. -/
theorem Tours.of_again_mem (h : Tours graph seens visited entered passages visited')
    (hsorted : seens.Pairwise fun one other => one.position < other.position) {seen : Sighting}
    {other : String} (hmem : .again seen other ∈ passages) :
    seen.far? = some other ∧
      (other ∈ entered ∨ ∃ earlier inside, .onward earlier other inside ∈ passages ∧
        earlier.position < seen.position) := by
  induction h with
  | nil => cases hmem
  | skipped _ _ _ _ ih | dangling _ _ ih =>
    obtain ⟨hfar, hin | ⟨earlier, inside, honward, hlt⟩⟩ :=
      ih hsorted.of_cons (by simpa using hmem)
    · exact ⟨hfar, .inl hin⟩
    · exact ⟨hfar, .inr ⟨earlier, inside, List.mem_cons_of_mem _ honward, hlt⟩⟩
  | again hfar' hin' _ ih =>
    rcases List.mem_cons.mp hmem with heq | hmem
    · cases heq
      exact ⟨hfar', .inl hin'⟩
    · obtain ⟨hfar, hin | ⟨earlier, inside, honward, hlt⟩⟩ := ih hsorted.of_cons hmem
      · exact ⟨hfar, .inl hin⟩
      · exact ⟨hfar, .inr ⟨earlier, inside, List.mem_cons_of_mem _ honward, hlt⟩⟩
  | onward hfar' _ _ _ hrest _ ih =>
    have hrestMem : Passage.again seen other ∈ _ := List.mem_of_ne_of_mem (by simp) hmem
    obtain ⟨hfar, hin | ⟨earlier, inside, honward, hlt⟩⟩ := ih hsorted.of_cons hrestMem
    · rcases List.mem_cons.mp hin with rfl | hin
      · refine ⟨hfar, .inr ⟨_, _, List.mem_cons_self, ?_⟩⟩
        refine List.rel_of_pairwise_cons hsorted ?_
        rw [← hrest.map_seen]
        exact List.mem_map_of_mem hrestMem
      · exact ⟨hfar, .inl hin⟩
    · exact ⟨hfar, .inr ⟨earlier, inside, List.mem_cons_of_mem _ honward, hlt⟩⟩

/-- A relation dangles when it has no far index. -/
theorem Tours.of_dangling_mem (h : Tours graph seens visited entered passages visited')
    {seen : Sighting} (hmem : .dangling seen ∈ passages) : seen.far? = none := by
  induction h with
  | nil => cases hmem
  | dangling hfar _ ih =>
    rcases List.mem_cons.mp hmem with heq | hmem
    · cases heq
      exact hfar
    · exact ih hmem
  | skipped _ _ _ _ ih | again _ _ _ ih | onward _ _ _ _ _ _ ih => exact ih (by simpa using hmem)

/-- At each stop of a tour there is a tour of its own. It starts when the index has just been
visited for the first time, and what it visits stays visited. -/
theorem Tours.tours_of_mem (h : Tours graph seens visited entered passages visited')
    (near : String) {stop : Stop} (hstop : stop ∈ allStops near passages) :
    ∃ before after, stop.index ∉ before ∧
      Tours graph (graph.sightings stop.index) (stop.index :: before) [] stop.passages after ∧
      ∀ index ∈ after, index ∈ visited' := by
  induction h generalizing near with
  | nil => cases hstop
  | skipped _ _ _ _ ih | dangling _ _ ih | again _ _ _ ih =>
    exact ih near (by simpa [allStops, Passage.stops] using hstop)
  | onward _ _ hnew hinside hrest ihInside ihRest =>
    rw [allStops, Passage.stops, List.mem_append, List.mem_cons] at hstop
    rcases hstop with (rfl | hstop) | hstop
    · exact ⟨_, _, hnew, hinside, hrest.subset⟩
    · obtain ⟨before, after, hfresh, htour, hafter⟩ := ihInside _ hstop
      exact ⟨before, after, hfresh, htour, fun index h => hrest.subset _ (hafter index h)⟩
    · exact ihRest near hstop

/-- A stop is entered from where the tour is or from an earlier stop, by a relation that leads
into it. -/
theorem Tours.entry_of_mem (h : Tours graph seens visited entered passages visited')
    (near : String) {stop : Stop} (hstop : stop ∈ allStops near passages) :
    ∃ seen, (stop.parent? = some near ∧ .onward seen stop.index stop.passages ∈ passages) ∨
      ∃ outer ∈ allStops near passages, stop.parent? = some outer.index ∧
        .onward seen stop.index stop.passages ∈ outer.passages := by
  induction h generalizing near with
  | nil => cases hstop
  | skipped _ _ _ _ ih | dangling _ _ ih | again _ _ _ ih =>
    obtain ⟨seen, ⟨hparent, hmem⟩ | ⟨outer, houter, hentry⟩⟩ :=
      ih near (by simpa [allStops, Passage.stops] using hstop)
    · exact ⟨seen, .inl ⟨hparent, List.mem_cons_of_mem _ hmem⟩⟩
    · exact ⟨seen, .inr ⟨outer, by simpa [allStops, Passage.stops] using houter, hentry⟩⟩
  | onward _ _ _ _ _ ihInside ihRest =>
    simp only [allStops, Passage.stops, List.mem_append, List.mem_cons] at hstop ⊢
    rcases hstop with (rfl | hstop) | hstop
    · exact ⟨_, .inl ⟨rfl, .inl rfl⟩⟩
    · obtain ⟨seen, ⟨hparent, hmem⟩ | ⟨outer, houter, hentry⟩⟩ := ihInside _ hstop
      · exact ⟨seen, .inr ⟨_, .inl (.inl rfl), hparent, hmem⟩⟩
      · exact ⟨seen, .inr ⟨outer, .inl (.inr houter), hentry⟩⟩
    · obtain ⟨seen, ⟨hparent, hmem⟩ | ⟨outer, houter, hentry⟩⟩ := ihRest near hstop
      · exact ⟨seen, .inl ⟨hparent, .inr hmem⟩⟩
      · exact ⟨seen, .inr ⟨outer, .inr houter, hentry⟩⟩

/-- Where a relation at a stop leads into an index there is a stop as well. -/
theorem Tours.mem_allStops (h : Tours graph seens visited entered passages visited')
    (near : String) {stop : Stop} (hstop : stop ∈ allStops near passages) {seen : Sighting}
    {other : String} {inside : List Passage} (hmem : .onward seen other inside ∈ stop.passages) :
    ⟨other, some stop.index, inside⟩ ∈ allStops near passages := by
  induction h generalizing near with
  | nil => cases hstop
  | skipped _ _ _ _ ih | dangling _ _ ih | again _ _ _ ih =>
    simpa [allStops, Passage.stops] using
      ih near (by simpa [allStops, Passage.stops] using hstop)
  | onward _ _ _ _ _ ihInside ihRest =>
    simp only [allStops, Passage.stops, List.mem_append, List.mem_cons] at hstop ⊢
    rcases hstop with (rfl | hstop) | hstop
    · exact .inl (.inr (Passage.mem_allStops_of_onward_mem hmem))
    · exact .inl (.inr (ihInside _ hstop))
    · exact .inr (ihRest near hstop)

/-- The offshoots of a tour are those of its stops. -/
theorem Tours.allWithin_perm (h : Tours graph seens visited entered passages visited')
    (near : String) :
    (Offshoot.allWithin (offshoots passages)).Perm
      (offshoots passages ++
        (allStops near passages).flatMap fun stop => offshoots stop.passages) := by
  induction h generalizing near with
  | nil => exact .nil
  | skipped _ _ _ _ ih => exact ih near
  | dangling _ _ ih | again _ _ _ ih => exact (ih near).cons _
  | @onward _ _ _ _ _ _ inside passages other _ _ _ _ _ ihInside ihRest =>
    simp only [offshoots, Passage.offshoot?, Option.toList_some, Offshoot.allWithin,
      Offshoot.within, allStops, Passage.stops, List.cons_append, List.flatMap_cons,
      List.flatMap_append]
    refine .cons _ (((ihInside other).append (ihRest near)).trans ?_)
    rw [List.nil_append, ← List.append_assoc (offshoots inside)]
    exact List.perm_append_comm_assoc _ _ _

end Graph

end Semijoin
