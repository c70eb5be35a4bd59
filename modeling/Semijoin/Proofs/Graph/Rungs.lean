import Semijoin.Proofs.Graph.Neighbours
import Semijoin.Proofs.Join.Rungs

/-!
# The rungs of a tour

A tour has no limit. A walk that has one does what the tour does, rung by rung, and stops at the
first join of the tour that is above the limit. There is only one tour from an index.
-/

namespace Semijoin

namespace Offshoot

mutual

/-- The rungs of an offshoot and of those nested in it, in the order in which their joins are
built. -/
def rungs (level : Nat) : Offshoot → List Rung
  | mk seen nested => ⟨seen.edge.origin, level⟩ :: allRungs (level + 1) nested

/-- The rungs of offshoots, one after the other. -/
def allRungs (level : Nat) : List Offshoot → List Rung
  | [] => []
  | first :: rest => first.rungs level ++ allRungs level rest

end

/-- The join of a relation in which nothing is nested. -/
theorem join_leaf (graph : Graph) (sentinel : String) (seen : Sighting) :
    join graph sentinel ⟨seen, []⟩ = (graph.ownJoin sentinel seen.side, seen.edge.negate) := by
  simp [join, joins, Join.joinAttachments]

variable {limit : Nat}

mutual

/-- The first rung of an offshoot that is above a limit is just above it. -/
theorem find?_rungs {level : Nat} (h : level ≤ limit + 1) : (offshoot : Offshoot) →
    (offshoot.rungs level).find? (fun rung => limit < rung.level) =
      (offshoot.rungs level).find? (fun rung => rung.level = limit + 1)
  | mk seen nested => by
    rw [rungs]
    rcases Nat.lt_or_eq_of_le h with hlt | rfl
    · rw [List.find?_cons_of_neg (by simp; omega), List.find?_cons_of_neg (by simp; omega)]
      exact find?_allRungs (by omega) nested
    · rw [List.find?_cons_of_pos (by simp), List.find?_cons_of_pos (by simp)]

/-- The first rung of offshoots that is above a limit is just above it. -/
theorem find?_allRungs {level : Nat} (h : level ≤ limit + 1) : (offshoots : List Offshoot) →
    (allRungs level offshoots).find? (fun rung => limit < rung.level) =
      (allRungs level offshoots).find? (fun rung => rung.level = limit + 1)
  | [] => rfl
  | first :: rest => by
    rw [allRungs, List.find?_append, List.find?_append, find?_rungs h first,
      find?_allRungs h rest]

end

end Offshoot

namespace Graph

open Passage (offshoots)

variable {graph : Graph} {sentinel index : String} {seens : List Sighting}
  {visited entered visited' : List String} {passages : List Passage}

/-- There is only one tour. -/
theorem Tours.unique (h : Tours graph seens visited entered passages visited')
    {passages₁ : List Passage} {visited₁ : List String}
    (h₁ : Tours graph seens visited entered passages₁ visited₁) :
    passages₁ = passages ∧ visited₁ = visited' := by
  induction h generalizing passages₁ visited₁ with
  | nil =>
    cases h₁
    exact ⟨rfl, rfl⟩
  | skipped hfar hentered hvisited _ ih =>
    cases h₁ with
    | skipped _ _ _ hrest => exact ⟨by rw [(ih hrest).1], (ih hrest).2⟩
    | dangling hfar' => cases hfar.symm.trans hfar'
    | again hfar' hentered' =>
      cases hfar.symm.trans hfar'
      exact absurd hentered' hentered
    | onward hfar' _ hvisited' =>
      cases hfar.symm.trans hfar'
      exact absurd hvisited hvisited'
  | dangling hfar _ ih =>
    cases h₁ with
    | dangling _ hrest => exact ⟨by rw [(ih hrest).1], (ih hrest).2⟩
    | skipped hfar' | again hfar' | onward hfar' => cases hfar.symm.trans hfar'
  | again hfar hentered _ ih =>
    cases h₁ with
    | again hfar' _ hrest =>
      cases hfar.symm.trans hfar'
      exact ⟨by rw [(ih hrest).1], (ih hrest).2⟩
    | dangling hfar' => cases hfar.symm.trans hfar'
    | skipped hfar' hentered' | onward hfar' hentered' =>
      cases hfar.symm.trans hfar'
      exact absurd hentered hentered'
  | onward hfar hentered hvisited _ _ ihInside ihRest =>
    cases h₁ with
    | onward hfar' _ _ hinside hrest =>
      cases hfar.symm.trans hfar'
      obtain ⟨rfl, rfl⟩ := ihInside hinside
      obtain ⟨rfl, rfl⟩ := ihRest hrest
      exact ⟨rfl, rfl⟩
    | dangling hfar' => cases hfar.symm.trans hfar'
    | skipped hfar' _ hvisited' =>
      cases hfar.symm.trans hfar'
      exact absurd hvisited' hvisited
    | again hfar' hentered' =>
      cases hfar.symm.trans hfar'
      exact absurd hentered' hentered

/-- The way onward of a walk that may nest so many joins. -/
def onward? (graph : Graph) (sentinel : String) : (levels : Nat) → Option Onward
  | 0 => none
  | levels + 1 => some (graph.walkFrom sentinel levels)

/-- A walk scans the relations of an index. -/
theorem walkFrom_eq_scan (graph : Graph) (sentinel : String) (levels : Nat) :
    graph.walkFrom sentinel levels = graph.scan sentinel (graph.onward? sentinel levels) := by
  cases levels <;> rfl

/-- Passes the relations that are seen from an index, and tells what has been visited and found. -/
def passSeen (graph : Graph) (sentinel : String) (onward : Option Onward) (index : String)
    (walk : Walk) (seens : List Sighting) : Except Fault Walked := do
  let walk ← seens.foldlM (fun walk seen =>
    (graph.pass sentinel onward index walk seen.edge).result) walk
  return ⟨walk.visited, walk.joins⟩

/-- A scan passes the relations that are seen from the index. -/
theorem scan_eq_of_sightings (onward : Option Onward) (index : String) (visited : List String) :
    graph.scan sentinel onward index visited = do
      let walk ← (graph.sightings index).foldlM (fun walk seen =>
        graph.pass sentinel onward index walk seen.edge) ⟨visited, [], []⟩
      return ⟨walk.visited, walk.joins⟩ := by
  have hplaces (step : Walk → Edge → Compilation Walk) (walk : Walk) :
      graph.relations.foldlM step walk =
        (graph.relations.zipIdx 0).foldlM (fun walk place => step walk place.1) walk := by
    conv => lhs; rw [← List.zipIdx_map_fst 0 graph.relations, List.foldlM_map]
  rw [scan, sightings, sightingsFrom, List.foldlM_filterMap, hplaces]
  congr 2
  funext walk place
  obtain ⟨edge, position⟩ := place
  dsimp only
  cases hside : edge.orient? index with
  | none => simp only [pass, hside, Option.map_none]
  | some side => rfl

/-- The result of a scan comes of passing the relations that are seen from the index. -/
theorem result_scan_eq_passSeen (onward : Option Onward) (index : String)
    (visited : List String) :
    (graph.scan sentinel onward index visited).result =
      graph.passSeen sentinel onward index ⟨visited, [], []⟩ (graph.sightings index) := by
  rw [scan_eq_of_sightings, Traced.result_bind, Traced.result_foldlM]
  rfl

/-- Passing a relation comes before passing the others. -/
theorem passSeen_cons (onward : Option Onward) (walk : Walk) (seen : Sighting)
    (rest : List Sighting) :
    graph.passSeen sentinel onward index walk (seen :: rest) =
      (graph.pass sentinel onward index walk seen.edge).result >>= fun walk =>
        graph.passSeen sentinel onward index walk rest := by
  rw [passSeen, List.foldlM_cons, bind_assoc]
  rfl

section Limiting

variable {level levels limit : Nat} (hlevel : level + levels = limit + 1)

include hlevel

/-- A relation that becomes an offshoot is passed if its rung is within the limit. Then the rungs of
what is nested in the offshoot come first, and those of the other relations after them. -/
theorem passSeen_open {seen : Sighting} (hside : seen.edge.orient? index = some seen.side)
    {walk next : Walk}
    (hopen : ∀ other, seen.far? = some other → other ∈ walk.entered ∨ other ∉ walk.visited)
    {nested others : List Offshoot}
    (hpass : ∀ left, levels = left + 1 →
      (graph.pass sentinel (some (graph.walkFrom sentinel left)) index walk seen.edge).result =
        Rung.reach limit (Offshoot.allRungs (level + 1) nested) next)
    {rest : List Sighting} {walked : Walked}
    (hrest : graph.passSeen sentinel (graph.onward? sentinel levels) index next rest =
      Rung.reach limit (Offshoot.allRungs level others) walked) :
    graph.passSeen sentinel (graph.onward? sentinel levels) index walk (seen :: rest) =
      Rung.reach limit (Offshoot.allRungs level (⟨seen, nested⟩ :: others)) walked := by
  rw [passSeen_cons, Offshoot.allRungs, Offshoot.rungs, List.cons_append]
  cases levels with
  | zero =>
    rw [onward?, result_pass_tooDeep hside hopen,
      Rung.reach_cons_of_lt (by change limit < level; omega)]
    rfl
  | succ left =>
    rw [onward?, hpass left rfl, Rung.reach_cons_of_le (by change level ≤ limit; omega)]
    exact Rung.reach_bind hrest

end Limiting

/-- **A walk with a limit goes along the tour.** It visits the same indices and finds the same joins
up to the first rung of the tour that is above the limit, where it is refused. -/
theorem Tours.passSeen_eq_reach (h : Tours graph seens visited entered passages visited')
    (hseens : ∀ seen ∈ seens, seen.edge.orient? index = some seen.side) {level levels limit : Nat}
    (hlevel : level + levels = limit + 1) (joins : List (Join × Bool)) :
    graph.passSeen sentinel (graph.onward? sentinel levels) index ⟨visited, entered, joins⟩ seens =
      Rung.reach limit (Offshoot.allRungs level (offshoots passages))
        ⟨visited', joins ++ Offshoot.joins graph sentinel (offshoots passages)⟩ := by
  -- The tour has no limit, so the levels that are left to the walk vary along it.
  induction h generalizing index level levels joins with
  | nil =>
    rw [offshoots, Offshoot.joins, List.append_nil]
    rfl
  | skipped hfar hentered hvisited _ ih =>
    obtain ⟨hside, hrest⟩ := List.forall_mem_cons.mp hseens
    rw [passSeen_cons, result_pass_skipped _ hside hfar hentered hvisited]
    exact ih hrest hlevel joins
  | @dangling seen rest visited entered visited' passages hfar _ ih =>
    obtain ⟨hside, hrest⟩ := List.forall_mem_cons.mp hseens
    rw [offshoots, Passage.offshoot?, Option.toList_some, List.singleton_append, Offshoot.joins,
      Offshoot.join_leaf, List.append_cons]
    refine passSeen_open hlevel hside (by simp [hfar]) (fun left _ => ?_) (ih hrest hlevel _)
    exact result_pass_dangling _ hside hfar
  | @again seen rest visited entered visited' passages other hfar hentered _ ih =>
    obtain ⟨hside, hrest⟩ := List.forall_mem_cons.mp hseens
    rw [offshoots, Passage.offshoot?, Option.toList_some, List.singleton_append, Offshoot.joins,
      Offshoot.join_leaf, List.append_cons]
    refine passSeen_open hlevel hside (by simp [hfar, hentered]) (fun left _ => ?_)
      (ih hrest hlevel _)
    exact result_pass_again _ hside hfar hentered
  | @onward seen rest visited entered visited₁ visited' inside passages other hfar hentered
      hvisited _ _ ihInside ihRest =>
    obtain ⟨hside, hrest⟩ := List.forall_mem_cons.mp hseens
    rw [offshoots, Passage.offshoot?, Option.toList_some, List.singleton_append, Offshoot.joins,
      Offshoot.join, List.append_cons]
    refine passSeen_open hlevel hside (by simp [hfar, hvisited]) (fun left hleft => ?_)
      (ihRest hrest hlevel _)
    subst hleft
    have hinside := ihInside (fun seen hseen => (mem_sightings.mp hseen).2)
      (show level + 1 + left = limit + 1 by omega) []
    rw [result_pass_onward _ hside hfar hentered hvisited, walkFrom_eq_scan,
      result_scan_eq_passSeen, hinside]
    exact Rung.reach_map _ _ _

/-- **The tour tells what a walk comes to.** -/
theorem Tours.result_walkFrom_eq_reach
    (h : Tours graph (graph.sightings index) visited [] passages visited') (levels : Nat) :
    (graph.walkFrom sentinel levels index visited).result =
      Rung.reach levels (Offshoot.allRungs 1 (offshoots passages))
        ⟨visited', Offshoot.joins graph sentinel (offshoots passages)⟩ := by
  rw [walkFrom_eq_scan, result_scan_eq_passSeen]
  have hseens : ∀ seen ∈ graph.sightings index, seen.edge.orient? index = some seen.side :=
    fun seen hseen => (mem_sightings.mp hseen).2
  exact h.passSeen_eq_reach hseens (Nat.add_comm 1 levels) []

end Graph

end Semijoin
