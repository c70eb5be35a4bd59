import Semijoin.Proofs.Graph.Limit

/-!
# When a graph is refused

A graph is refused for a relation that joins an index with itself, then for clauses of the focus,
and then for joins that nest too deep. Otherwise it compiles to the joins of the tour from its
focus, which has no limit of its own.
-/

namespace Semijoin.Graph

open Passage (offshoots)

variable {graph : Graph} {sentinel : String}

/-- What stands behind elements that pass a check is checked as if they were not there. -/
theorem forM_append_cons_of_ok {α : Type} {check : α → Except Fault Unit} {before : List α}
    (h : ∀ value ∈ before, check value = .ok ()) (value : α) (after : List α) :
    (before ++ value :: after).forM check = check value >>= fun _ => after.forM check := by
  induction before with
  | nil => rfl
  | cons first rest ih =>
    obtain ⟨hfirst, hrest⟩ := List.forall_mem_cons.mp h
    change check first >>= (fun _ => (rest ++ value :: after).forM check) = _
    rw [hfirst]
    exact ih hrest

/-- The first relation that joins an index with itself is a fault. -/
theorem check_eq_error {edge : Edge} {index : String}
    (hfirst : graph.relations.find? (fun edge => edge.loop?.isSome) = some edge)
    (hloop : edge.loop? = some index) :
    graph.check = .error (.selfRelation index edge.origin) := by
  obtain ⟨-, before, after, hrelations, hbefore⟩ := List.find?_eq_some_iff_append.mp hfirst
  rw [check, hrelations, forM_append_cons_of_ok, hloop]
  · rfl
  · intro earlier hearlier
    have hnone : earlier.loop? = none := by simpa using hbefore earlier hearlier
    rw [hnone]
    rfl

/-- There is a tour from the focus, and the walk that has enough levels goes along it. -/
theorem exists_tour (graph : Graph) (sentinel : String) : ∃ passages visited,
    Tours graph (graph.sightings graph.focus) [graph.focus] [] passages visited ∧
      ∀ levels, 2 * graph.relations.length + 1 ≤ levels →
        (graph.walkFrom sentinel levels graph.focus [graph.focus]).result =
          .ok ⟨visited, Offshoot.joins graph sentinel (offshoots passages)⟩ := by
  obtain ⟨walked, hwalked⟩ := graph.exists_fullWalk sentinel
  rw [fullWalk] at hwalked
  obtain ⟨passages, htour, -⟩ := tours_of_walkFrom graph sentinel _ _ _ _ hwalked
  refine ⟨passages, _, htour, fun levels hlevels => ?_⟩
  rw [htour.result_walkFrom_eq_reach] at hwalked ⊢
  refine Rung.reach_of_forall_le (fun rung hrung => ?_) _
  exact Nat.le_trans (Rung.forall_le_of_reach_eq_ok hwalked rung hrung) hlevels

/-- What comes of compiling a graph, told from the offshoots of the tour from its focus. -/
structure Verdict (graph : Graph) (sentinel : String) (offshoots : List Offshoot)
    (result : Except Fault (List Json)) : Prop where
  /-- The first relation that joins an index with itself is refused before anything else. -/
  loop : ∀ edge index, graph.relations.find? (fun edge => edge.loop?.isSome) = some edge →
    edge.loop? = some index → result = .error (.selfRelation index edge.origin)
  /-- Without such a relation, clauses for the focus are refused. -/
  rootFilters : (∀ edge ∈ graph.relations, edge.loop? = none) →
    (graph.queries.lookup graph.focus).isSome → result = .error (.rootFilters graph.focus)
  /-- Without clauses for the focus either, the first join of the tour that is one level above the
  limit is refused. -/
  tooDeep : (∀ edge ∈ graph.relations, edge.loop? = none) →
    graph.queries.lookup graph.focus = none → ∀ rung,
    (Offshoot.allRungs 1 offshoots).find? (fun rung => rung.level = maxJoinDepth + 1) = some rung →
    result = .error (.malformed .tooDeep rung.origin)
  /-- Without a join on that level, the graph compiles to the joins of the tour, and none is above
  the limit. -/
  succeeds : (∀ edge ∈ graph.relations, edge.loop? = none) →
    graph.queries.lookup graph.focus = none →
    (∀ rung ∈ Offshoot.allRungs 1 offshoots, rung.level ≠ maxJoinDepth + 1) →
    result = .ok (Join.clauses (Offshoot.joins graph sentinel offshoots)) ∧
      ∀ rung ∈ Offshoot.allRungs 1 offshoots, rung.level ≤ maxJoinDepth
  /-- Nested or not, the join of an offshoot compiles to what its relation, the clauses of the far
  index and the joins inside make of it. -/
  clause : ∀ offshoot ∈ Offshoot.allWithin offshoots,
    (offshoot.join graph sentinel).1.toJson = offshoot.clauseOf graph sentinel

/-- What comes of compiling a graph that passes its checks: its tour is reached rung by rung. -/
theorem Tours.result_compile_eq_reach {passages : List Passage} {visited : List String}
    (h : Tours graph (graph.sightings graph.focus) [graph.focus] [] passages visited)
    (hloops : ∀ edge ∈ graph.relations, edge.loop? = none)
    (hqueries : graph.queries.lookup graph.focus = none) :
    (graph.compile sentinel).result =
      Rung.reach maxJoinDepth (Offshoot.allRungs 1 (offshoots passages))
        (Join.clauses (Offshoot.joins graph sentinel (offshoots passages))) := by
  rw [result_compile, check_eq_ok_iff.mpr hloops, checkFocus_eq_ok_iff_lookup.mpr hqueries,
    h.result_walkFrom_eq_reach]
  exact Rung.reach_map _ _ fun walked : Walked => Join.clauses walked.joins

/-- **When a graph is refused.** Whatever its relations, there is exactly one tour from the focus.
The walk goes along it, whatever number of levels it has from some number on, and so does the
compilation, except for what it refuses: a relation that joins an index with itself, clauses for the
focus, and a join above the limit, in this order. -/
theorem verdict_tour (graph : Graph) (sentinel : String) : ∃ passages visited,
    Tours graph (graph.sightings graph.focus) [graph.focus] [] passages visited ∧
      (∀ passages' visited',
        Tours graph (graph.sightings graph.focus) [graph.focus] [] passages' visited' →
        passages' = passages ∧ visited' = visited) ∧
      (∀ levels, 2 * graph.relations.length + 1 ≤ levels →
        (graph.walkFrom sentinel levels graph.focus [graph.focus]).result =
          .ok ⟨visited, Offshoot.joins graph sentinel (offshoots passages)⟩) ∧
      graph.Verdict sentinel (offshoots passages) (graph.compile sentinel).result := by
  obtain ⟨passages, visited, htour, hwalk⟩ := graph.exists_tour sentinel
  have hfirst := Offshoot.find?_allRungs (Nat.le_add_left 1 maxJoinDepth) (offshoots passages)
  refine ⟨passages, visited, htour, fun _ _ => htour.unique, hwalk, ?_, ?_, ?_, ?_,
    fun offshoot _ => offshoot.toJson_join graph sentinel⟩
  · intro edge index hedge hloop
    rw [result_compile, check_eq_error hedge hloop]
    rfl
  · intro hloops hqueries
    rw [result_compile, check_eq_ok_iff.mpr hloops, checkFocus, hqueries]
    rfl
  · intro hloops hqueries rung hrung
    rw [htour.result_compile_eq_reach hloops hqueries, Rung.reach, hfirst, hrung]
  · intro hloops hqueries hnone
    have hfound := hfirst.trans (List.find?_eq_none.mpr (by simpa using hnone))
    have hwithin : ∀ rung ∈ Offshoot.allRungs 1 (offshoots passages),
        rung.level ≤ maxJoinDepth :=
      Rung.find?_eq_none_iff.mp hfound
    rw [htour.result_compile_eq_reach hloops hqueries]
    exact ⟨Rung.reach_of_forall_le hwithin _, hwithin⟩

end Semijoin.Graph
