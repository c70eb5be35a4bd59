import Mathlib.Data.List.Perm.Subperm
import Semijoin.Proofs.Chain.Limit
import Semijoin.Proofs.Fault.Graphs
import Semijoin.Proofs.Graph.Rungs
import Semijoin.Proofs.Join.Levels

/-!
# Walks with a limit and without

A walk that nests as many joins as a graph has names, and more, is never stopped by its limit. Every
other walk finds the same joins if they nest within its own limit, and is refused if they do not.
-/

namespace Semijoin

namespace Graph

open Json

variable {graph : Graph} {sentinel : String}

/-- The walk from the focus, with more levels than the graph has names. -/
def fullWalk (graph : Graph) (sentinel : String) : Except Fault Walked :=
  (graph.walkFrom sentinel (2 * graph.relations.length + 1) graph.focus [graph.focus]).result

section Naming

/-- The first indices of all endpoints. -/
def names (graph : Graph) : List String :=
  graph.relations.flatMap fun edge => edge.first.index?.toList ++ edge.second.index?.toList

/-- Every relation has two endpoints, and an endpoint has at most one first index. -/
theorem length_names_le (graph : Graph) : graph.names.length ≤ 2 * graph.relations.length := by
  rw [names, List.length_flatMap]
  have hedge (index? : Option String) : index?.toList.length ≤ 1 := by cases index? <;> simp
  induction graph.relations with
  | nil => exact Nat.le_refl _
  | cons edge rest ih =>
    have hfirst := hedge edge.first.index?
    have hsecond := hedge edge.second.index?
    simp only [List.map_cons, List.sum_cons, List.length_append, List.length_cons] at ih ⊢
    omega

/-- An index that is related to another one has a name. -/
theorem Adjacent.mem_names {one other : String} (h : graph.Adjacent one other) :
    other ∈ graph.names := by
  obtain ⟨edge, hedge, hjoins⟩ := h
  refine List.mem_flatMap.mpr ⟨edge, hedge, List.mem_append.mpr ?_⟩
  rcases hjoins with ⟨-, hsecond⟩ | ⟨hfirst, -⟩
  · exact .inr (Option.mem_toList.mpr hsecond)
  · exact .inl (Option.mem_toList.mpr hfirst)

/-- Every index on a way has a name. -/
theorem mem_names_of_leads {focus index : String} {way : List String}
    (h : Leads graph.Adjacent focus way index) : ∀ other ∈ way, other ∈ graph.names := by
  have hlinked := h.linked
  clear h
  induction way generalizing focus with
  | nil => exact List.forall_mem_nil _
  | cons first rest ih =>
    rw [List.isChain_cons_cons] at hlinked
    exact List.forall_mem_cons.mpr ⟨hlinked.1.mem_names, ih hlinked.2⟩

/-- The full walk is never stopped. -/
theorem exists_fullWalk (graph : Graph) (sentinel : String) :
    ∃ walked, graph.fullWalk sentinel = .ok walked := by
  cases hwalk : graph.fullWalk sentinel with
  | ok walked => exact ⟨walked, rfl⟩
  | error fault =>
    have hstart : Leads graph.Adjacent graph.focus [] graph.focus :=
      ⟨List.pairwise_singleton _ _, List.isChain_singleton _, rfl⟩
    obtain ⟨edge, hexhausted, -⟩ := exhausted_walkFrom _ hstart (fun _ => id) fault hwalk
    obtain ⟨way, index, side, hleads, hlength, -⟩ := hexhausted.leads
    have hnodup := (List.nodup_cons.mp hleads.nodup).2
    have hway := (List.subperm_of_subset hnodup (mem_names_of_leads hleads)).length_le
    have hnames := graph.length_names_le
    rw [List.length_nil] at hlength
    omega

end Naming

/-- A join to an index is one level deeper than the joins nested in it. -/
theorem depth_ownJoin (graph : Graph) (sentinel : String) {side : Orientation} {other : String}
    (hfar : side.far.index? = some other) (joins : List (Join × Bool)) :
    ((graph.ownJoin sentinel side).attaching (Join.joinAttachments joins)).depth =
      Join.maxDepth joins + 1 :=
  Join.depth_attaching (Endpoint.indices_ne_nil hfar) _ joins

end Graph

/-- The rungs of offshoots tell how deep their joins nest. -/
def Offshoot.RungsTell (graph : Graph) (sentinel : String) (offshoots : List Offshoot) : Prop :=
  ∀ level limit, (∀ rung ∈ allRungs (level + 1) offshoots, rung.level ≤ level + limit) ↔
    Join.maxDepth (joins graph sentinel offshoots) ≤ limit

/-- The rungs of an offshoot and of others tell how deep their joins nest, if those nested in the
offshoot do and its join is one level deeper. -/
theorem Offshoot.RungsTell.cons {graph : Graph} {sentinel : String} {seen : Sighting}
    {nested others : List Offshoot}
    (hdepth : (join graph sentinel ⟨seen, nested⟩).1.depth =
      Join.maxDepth (joins graph sentinel nested) + 1)
    (hnested : RungsTell graph sentinel nested) (hothers : RungsTell graph sentinel others) :
    RungsTell graph sentinel (⟨seen, nested⟩ :: others) := by
  intro level limit
  have hjoins : Join.maxDepth (joins graph sentinel (⟨seen, nested⟩ :: others)) =
      max (join graph sentinel ⟨seen, nested⟩).1.depth
        (Join.maxDepth (joins graph sentinel others)) := rfl
  rw [allRungs, List.forall_mem_append, hothers level limit, hjoins, hdepth, Nat.max_le, rungs,
    List.forall_mem_cons]
  refine and_congr_left fun _ => ?_
  cases limit with
  | zero => exact iff_of_false (fun h => Nat.not_succ_le_self level h.1) (Nat.not_succ_le_zero _)
  | succ limit =>
    rw [Nat.succ_le_succ_iff, ← hnested (level + 1) limit, Nat.add_right_comm level 1 limit]
    exact and_iff_right (Nat.add_le_add_left (Nat.succ_le_succ (Nat.zero_le limit)) level)

namespace Graph

open Passage (offshoots)

variable {graph : Graph} {sentinel : String}

/-- The rungs of a tour tell how deep the joins of a walk nest. -/
theorem Tours.rungsTell {seens : List Sighting} {visited entered visited' : List String}
    {passages : List Passage} (h : Tours graph seens visited entered passages visited') :
    Offshoot.RungsTell graph sentinel (offshoots passages) := by
  have hnil : Offshoot.RungsTell graph sentinel [] :=
    fun _ limit => iff_of_true (List.forall_mem_nil _) (Nat.zero_le limit)
  induction h with
  | nil => exact hnil
  | skipped _ _ _ _ ih => exact ih
  | dangling hfar _ ih =>
    refine .cons ?_ hnil ih
    rw [Offshoot.join_leaf, ownJoin_of_index?_eq_none hfar]
    rfl
  | again hfar _ _ ih => exact .cons (depth_ownJoin graph sentinel hfar []) hnil ih
  | onward hfar _ _ _ _ ihInside ihRest =>
    exact .cons (depth_ownJoin graph sentinel hfar _) ihInside ihRest

/-- **Walks with a limit.** What a walk finds with any number of levels is found with another number
of levels, as long as the joins nest within this one. Otherwise the walk is refused. -/
theorem limits_walkFrom (graph : Graph) (sentinel : String) (long short : Nat) (index : String)
    (visited : List String) (walked : Walked)
    (h : (graph.walkFrom sentinel long index visited).result = .ok walked) :
    Limited short (Join.maxDepth walked.joins) walked
      (graph.walkFrom sentinel short index visited).result := by
  obtain ⟨passages, htour, hjoins⟩ := tours_of_walkFrom graph sentinel long _ _ _ h
  obtain ⟨visited', joins⟩ := walked
  change joins = _ at hjoins
  subst hjoins
  rw [htour.result_walkFrom_eq_reach]
  refine Rung.limited_reach ?_ _
  have htell := @Tours.rungsTell graph sentinel _ _ _ _ _ htour 0 short
  rwa [Nat.zero_add, Nat.zero_add] at htell

end Graph

end Semijoin
