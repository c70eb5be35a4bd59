import Semijoin.Proofs.Graph.Tour
import Mathlib.Tactic.SplitIfs

/-!
# Neighbours in a join graph

Two indices are neighbours when a relation joins them. What a walk sees at an index is exactly
its neighbours, in the order in which the relations are written, and of the relations to one
neighbour it goes onward by the first.
-/

namespace Semijoin

namespace Edge

/-- A relation has one of two indices at each end, whichever is written first. -/
def Joins (edge : Edge) (one other : String) : Prop :=
  edge.first.index? = some one ∧ edge.second.index? = some other ∨
    edge.first.index? = some other ∧ edge.second.index? = some one

instance (edge : Edge) (one other : String) : Decidable (edge.Joins one other) :=
  inferInstanceAs (Decidable (_ ∨ _))

variable {edge : Edge} {index one other : String} {side : Orientation}

/-- The order in which a relation is written has no meaning. -/
theorem Joins.symm (h : edge.Joins one other) : edge.Joins other one := Or.symm h

/-- A relation that has a far index joins it. -/
theorem joins_of_orient? (h : edge.orient? one = some side)
    (hfar : side.far.index? = some other) : edge.Joins one other := by
  unfold orient? at h
  split_ifs at h with hfirst hsecond
  · cases h
    exact .inl ⟨hfirst, hfar⟩
  · cases h
    exact .inr ⟨hfar, hsecond⟩

/-- A relation between two indices is seen from each of them. -/
theorem Joins.orient? (h : edge.Joins one other) :
    ∃ side, edge.orient? one = some side ∧ side.far.index? = some other := by
  unfold Edge.orient?
  rcases h with ⟨hone, hother⟩ | ⟨hother, hone⟩
  · exact ⟨_, if_pos hone, hother⟩
  · by_cases hfirst : edge.first.index? = some one
    · refine ⟨_, if_pos hfirst, ?_⟩
      rw [hone, ← hother, hfirst]
    · exact ⟨_, (if_neg hfirst).trans (if_pos hone), hother⟩

/-- A relation joins only one pair of indices. -/
theorem Joins.eq_of_orient? (h : edge.Joins one other) (hside : edge.orient? index = some side) :
    index = one ∧ side.far.index? = some other ∨ index = other ∧ side.far.index? = some one := by
  unfold Edge.orient? at hside
  unfold Joins at h
  split_ifs at hside with hfirst hsecond <;> grind

/-- A relation without a far index is seen from one index only. -/
theorem eq_of_orient?_of_dangling (hside : edge.orient? index = some side)
    (hfar : side.far.index? = none) {side' : Orientation}
    (hother : edge.orient? other = some side') : other = index := by
  unfold orient? at hside hother
  split_ifs at hside hother <;> grind

end Edge

namespace Graph

variable {graph : Graph} {index one other : String} {seen : Sighting}

/-- A relation joins two indices. -/
def Adjacent (graph : Graph) (one other : String) : Prop :=
  ∃ edge ∈ graph.relations, edge.Joins one other

/-- Neighbours are so mutually. -/
theorem Adjacent.symm (h : graph.Adjacent one other) : graph.Adjacent other one := by
  obtain ⟨edge, hedge, hjoins⟩ := h
  exact ⟨edge, hedge, hjoins.symm⟩

/-- What is seen at an index are the relations that touch it. -/
theorem mem_sightings : seen ∈ graph.sightings index ↔
    graph.relations[seen.position]? = some seen.edge ∧
      seen.edge.orient? index = some seen.side := by
  obtain ⟨position, edge, side⟩ := seen
  simp only [sightings, sightingsFrom, List.mem_filterMap, Prod.exists, Option.map_eq_some_iff,
    Sighting.mk.injEq, List.mk_mem_zipIdx_iff_getElem?]
  grind

/-- Relations are seen in the order in which they are written. -/
theorem pairwise_sightings (graph : Graph) (index : String) :
    (graph.sightings index).Pairwise fun one other => one.position < other.position := by
  have hplaces : (graph.relations.zipIdx).Pairwise fun one other => one.2 < other.2 := by
    rw [← List.pairwise_map, List.zipIdx_map_snd]
    exact List.pairwise_lt_range'
  refine hplaces.filterMap _ fun one other hlt seen hseen seen' hseen' => ?_
  simp only [Option.map_eq_some_iff] at hseen hseen'
  grind

/-- An index sees its neighbours. -/
theorem adjacent_iff : graph.Adjacent one other ↔
    ∃ seen ∈ graph.sightings one, seen.far? = some other := by
  constructor
  · rintro ⟨edge, hedge, hjoins⟩
    obtain ⟨position, hposition⟩ := List.mem_iff_getElem?.mp hedge
    obtain ⟨side, hside, hfar⟩ := hjoins.orient?
    exact ⟨⟨position, edge, side⟩, mem_sightings.mpr ⟨hposition, hside⟩, hfar⟩
  · rintro ⟨seen, hseen, hfar⟩
    obtain ⟨hposition, hside⟩ := mem_sightings.mp hseen
    exact ⟨seen.edge, List.mem_of_getElem? hposition, Edge.joins_of_orient? hside hfar⟩

/-- In a graph that is not refused no index is its own neighbour. -/
theorem not_adjacent_self (h : graph.check = .ok ()) (index : String) :
    ¬ graph.Adjacent index index := by
  rintro ⟨edge, hedge, hjoins⟩
  have hloop : edge.loop? = some index := by
    rcases hjoins with ⟨hfirst, hsecond⟩ | ⟨hfirst, hsecond⟩ <;>
      simp [Edge.loop?, hfirst, hsecond]
  cases hloop.symm.trans (check_eq_ok_iff.mp h edge hedge)

/-- The place of the first relation that joins two indices. -/
def firstBetween? (graph : Graph) (one other : String) : Option Nat :=
  graph.relations.findIdx? fun edge => decide (edge.Joins one other)

/-- A relation between two indices is the first when it is seen before the others. -/
theorem firstBetween?_eq_some_iff (hseen : seen ∈ graph.sightings one)
    (hfar : seen.far? = some other) :
    graph.firstBetween? one other = some seen.position ↔
      ∀ seen' ∈ graph.sightings one, seen'.far? = some other →
        seen.position ≤ seen'.position := by
  obtain ⟨hposition, hside⟩ := mem_sightings.mp hseen
  obtain ⟨hlt, hedge⟩ := List.getElem?_eq_some_iff.mp hposition
  rw [firstBetween?, List.findIdx?_eq_some_iff_getElem]
  constructor
  · rintro ⟨_, -, hfirst⟩ seen' hseen' hfar'
    refine Nat.le_of_not_lt fun hbefore => ?_
    obtain ⟨hposition', hside'⟩ := mem_sightings.mp hseen'
    obtain ⟨_, hedge'⟩ := List.getElem?_eq_some_iff.mp hposition'
    refine hfirst seen'.position hbefore ?_
    rw [hedge']
    exact decide_eq_true (Edge.joins_of_orient? hside' hfar')
  · intro hfirst
    refine ⟨hlt, ?_, fun position hposition' hjoins => ?_⟩
    · rw [hedge]
      exact decide_eq_true (Edge.joins_of_orient? hside hfar)
    · obtain ⟨side, hside', hfar'⟩ := (of_decide_eq_true hjoins).orient?
      have hle := hfirst ⟨position, _, side⟩
        (mem_sightings.mpr ⟨List.getElem?_eq_getElem _, hside'⟩) hfar'
      simp only at hle
      omega

end Graph

end Semijoin
