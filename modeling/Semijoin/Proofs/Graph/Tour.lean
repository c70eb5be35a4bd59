import Semijoin.Proofs.Graph.Passing
import Semijoin.Proofs.Join.Rendering

/-!
# The tour of a walk

A tour keeps what a walk does with each relation at each index that it enters, so that the joins
of the walk can be told from the graph. Every walk that succeeds has a tour, and the joins of the
walk are the offshoots of the tour.
-/

namespace Semijoin

/-- A relation as seen from an index that it touches, with its place in the order of the
relations. -/
structure Sighting where
  position : Nat
  edge : Edge
  side : Orientation
  deriving DecidableEq, Repr

/-- The index at the other end of a relation, if it names one. -/
def Sighting.far? (seen : Sighting) : Option String := seen.side.far.index?

/-- The join of a relation with the joins that are nested in it. -/
inductive Offshoot where
  | mk (seen : Sighting) (nested : List Offshoot)

/-- What a walk does with a relation at an index. -/
inductive Passage where
  /-- The far index is visited and was not entered from here. -/
  | skipped (seen : Sighting)
  /-- There is no far index. -/
  | dangling (seen : Sighting)
  /-- The far index was entered from here before. -/
  | again (seen : Sighting) (other : String)
  /-- The far index is entered. -/
  | onward (seen : Sighting) (other : String) (inside : List Passage)

namespace Offshoot

/-- The relation that an offshoot comes from. -/
def seen : Offshoot → Sighting
  | mk seen _ => seen

/-- The offshoots nested in an offshoot. -/
def nested : Offshoot → List Offshoot
  | mk _ nested => nested

mutual

/-- The join of an offshoot: the far index with its clauses, and the nested joins behind them. -/
def join (graph : Graph) (sentinel : String) : Offshoot → Join × Bool
  | mk seen nested =>
    ((graph.ownJoin sentinel seen.side).attaching
      (Join.joinAttachments (joins graph sentinel nested)), seen.edge.negate)

/-- The joins of offshoots. -/
def joins (graph : Graph) (sentinel : String) : List Offshoot → List (Join × Bool)
  | [] => []
  | first :: rest => first.join graph sentinel :: joins graph sentinel rest

end

/-- The joins of two lists of offshoots stand one after the other. -/
theorem joins_append (graph : Graph) (sentinel : String) (first second : List Offshoot) :
    joins graph sentinel (first ++ second) =
      joins graph sentinel first ++ joins graph sentinel second := by
  induction first with
  | nil => rfl
  | cons offshoot rest ih => simp only [List.cons_append, joins, ih]

/-- The clause of an offshoot. Where the relation has a far index, the clause carries those of this
index and then the nested joins. -/
def clauseOf (graph : Graph) (sentinel : String) (offshoot : Offshoot) : Json :=
  match offshoot.seen.far? with
  | some other =>
    Join.clauseOver offshoot.seen.side.near.path offshoot.seen.side.far.toTarget
      (graph.queriesFor other) (joins graph sentinel offshoot.nested)
  | none =>
    Join.clauseAgainst offshoot.seen.side.near.path offshoot.seen.side.far.path sentinel

/-- The join of an offshoot compiles to its clause. -/
theorem toJson_join (graph : Graph) (sentinel : String) (offshoot : Offshoot) :
    (offshoot.join graph sentinel).1.toJson = offshoot.clauseOf graph sentinel := by
  obtain ⟨seen, inside⟩ := offshoot
  rw [join]
  cases hfar : seen.far? with
  | some other =>
    rw [Graph.ownJoin_attaching hfar, Join.toJson_resolved, clauseOf]
    simp only [Offshoot.seen, nested, hfar]
  | none =>
    rw [Graph.ownJoin_of_index?_eq_none hfar, Join.attaching, Join.toJson_unresolved, clauseOf]
    simp only [Offshoot.seen, hfar]

mutual

/-- An offshoot with those nested in it, from the outside inwards. -/
def within : Offshoot → List Offshoot
  | mk seen nested => mk seen nested :: allWithin nested

/-- Some offshoots with those nested in them. -/
def allWithin : List Offshoot → List Offshoot
  | [] => []
  | first :: rest => first.within ++ allWithin rest

end

end Offshoot

namespace Passage

/-- The relation that is passed. -/
def seen : Passage → Sighting
  | skipped seen | dangling seen | again seen _ | onward seen _ _ => seen

mutual

/-- The offshoot that a relation becomes, if it is not skipped. -/
def offshoot? : Passage → Option Offshoot
  | skipped _ => none
  | dangling seen | again seen _ => some ⟨seen, []⟩
  | onward seen _ inside => some ⟨seen, offshoots inside⟩

/-- The offshoots of the relations passed at an index. -/
def offshoots : List Passage → List Offshoot
  | [] => []
  | first :: rest => first.offshoot?.toList ++ offshoots rest

end

/-- The offshoots at an index are those of its relations, in their order. -/
theorem offshoots_eq_filterMap (passages : List Passage) :
    offshoots passages = passages.filterMap offshoot? := by
  induction passages with
  | nil => rfl
  | cons first rest ih =>
    rw [offshoots, ih, List.filterMap_cons]
    cases first.offshoot? <;> rfl

/-- The offshoots of two lists of passages stand one after the other. -/
theorem offshoots_append (first second : List Passage) :
    offshoots (first ++ second) = offshoots first ++ offshoots second := by
  simp only [offshoots_eq_filterMap, List.filterMap_append]

end Passage

namespace Graph

/-- The relations of a list that touch an index, as seen from there. Places are counted from a
start. -/
def sightingsFrom (start : Nat) (index : String) (relations : List Edge) : List Sighting :=
  (relations.zipIdx start).filterMap fun (edge, position) =>
    (edge.orient? index).map fun side => ⟨position, edge, side⟩

/-- The relations that touch an index, as seen from there. -/
def sightings (graph : Graph) (index : String) : List Sighting :=
  sightingsFrom 0 index graph.relations

/-- How a walk passes relations one after the other. The indices visited and those entered from
here are told before, and the indices visited after. -/
inductive Tours (graph : Graph) :
    List Sighting → (visited entered : List String) → List Passage → List String → Prop
  | nil {visited entered : List String} : Tours graph [] visited entered [] visited
  | skipped {seen : Sighting} {rest : List Sighting} {visited entered visited' : List String}
      {passages : List Passage} {other : String} (hfar : seen.far? = some other)
      (hentered : other ∉ entered) (hvisited : other ∈ visited)
      (hrest : Tours graph rest visited entered passages visited') :
      Tours graph (seen :: rest) visited entered (.skipped seen :: passages) visited'
  | dangling {seen : Sighting} {rest : List Sighting} {visited entered visited' : List String}
      {passages : List Passage} (hfar : seen.far? = none)
      (hrest : Tours graph rest visited entered passages visited') :
      Tours graph (seen :: rest) visited entered (.dangling seen :: passages) visited'
  | again {seen : Sighting} {rest : List Sighting} {visited entered visited' : List String}
      {passages : List Passage} {other : String} (hfar : seen.far? = some other)
      (hentered : other ∈ entered) (hrest : Tours graph rest visited entered passages visited') :
      Tours graph (seen :: rest) visited entered (.again seen other :: passages) visited'
  | onward {seen : Sighting} {rest : List Sighting}
      {visited entered visited₁ visited' : List String} {inside passages : List Passage}
      {other : String} (hfar : seen.far? = some other) (hentered : other ∉ entered)
      (hvisited : other ∉ visited)
      (hinside : Tours graph (graph.sightings other) (other :: visited) [] inside visited₁)
      (hrest : Tours graph rest visited₁ (other :: entered) passages visited') :
      Tours graph (seen :: rest) visited entered (.onward seen other inside :: passages) visited'

variable {graph : Graph} {sentinel : String}

/-- A way onward has tours when each of its walks has one. -/
def OnwardTours (graph : Graph) (sentinel : String) (onward : Onward) : Prop :=
  ∀ index visited walked, (onward index visited).result = .ok walked →
    ∃ passages, Tours graph (graph.sightings index) visited [] passages walked.visited ∧
      walked.joins = Offshoot.joins graph sentinel (Passage.offshoots passages)

/-- Passing one relation starts a tour, if the way onward has tours: whatever tour goes on behind
the relation has the passage of the relation in front of it, if the relation touches the index. -/
theorem tours_of_pass {onward : Option Onward}
    (honward : ∀ way, onward = some way → OnwardTours graph sentinel way) {index : String}
    {edge : Edge} (start : Nat) {walk walk' : Walk}
    (h : (graph.pass sentinel onward index walk edge).result = .ok walk') :
    ∃ front,
      walk'.joins = walk.joins ++ Offshoot.joins graph sentinel (Passage.offshoots front) ∧
      ∀ {rest : List Sighting} {passages : List Passage} {visited' : List String},
        Tours graph rest walk'.visited walk'.entered passages visited' →
        Tours graph (sightingsFrom start index [edge] ++ rest) walk.visited walk.entered
          (front ++ passages) visited' := by
  have hpassed := @passed_pass graph sentinel index walk edge onward
  rw [h] at hpassed
  generalize houtcome : Except.ok walk' = outcome at hpassed
  have hseen {side : Orientation} (hside : edge.orient? index = some side) :
      sightingsFrom start index [edge] = [⟨start, edge, side⟩] := by
    simp [sightingsFrom, hside]
  cases hpassed with
  | untouched hside =>
    cases houtcome
    refine ⟨[], (List.append_nil _).symm, fun htours => ?_⟩
    simpa [sightingsFrom, hside] using htours
  | skipped hside hfar hentered hvisited =>
    cases houtcome
    rw [hseen hside]
    exact ⟨[.skipped _], (List.append_nil _).symm, .skipped hfar hentered hvisited⟩
  | tooDeep => cases houtcome
  | dangling hside hfar =>
    cases houtcome
    rw [hseen hside]
    refine ⟨[.dangling ⟨start, edge, _⟩], ?_, .dangling hfar⟩
    simp [Passage.offshoots, Passage.offshoot?, Offshoot.joins, Offshoot.join,
      Join.joinAttachments]
  | @again way side other hside hfar hentered =>
    cases houtcome
    rw [hseen hside]
    refine ⟨[.again ⟨start, edge, side⟩ other], ?_, .again hfar hentered⟩
    simp [Passage.offshoots, Passage.offshoot?, Offshoot.joins, Offshoot.join,
      Join.joinAttachments]
  | @onward way side other hside hfar hentered hvisited =>
    obtain ⟨walked, hway, hwalk⟩ := bind_eq_ok houtcome.symm
    cases hwalk
    rw [hseen hside]
    obtain ⟨inside, hinside, hnested⟩ := honward way rfl _ _ _ hway
    refine ⟨[.onward ⟨start, edge, side⟩ other inside], ?_,
      .onward hfar hentered hvisited hinside⟩
    simp [Passage.offshoots, Passage.offshoot?, Offshoot.joins, Offshoot.join, hnested]

/-- Passing relations one after the other has a tour, if the way onward has tours. -/
theorem tours_of_foldlM {onward : Option Onward}
    (honward : ∀ way, onward = some way → OnwardTours graph sentinel way) {index : String}
    {relations : List Edge} (start : Nat) {walk walk' : Walk}
    (h : relations.foldlM
      (fun walk edge => (graph.pass sentinel onward index walk edge).result) walk = .ok walk') :
    ∃ passages,
      Tours graph (sightingsFrom start index relations) walk.visited walk.entered passages
        walk'.visited ∧
      walk'.joins = walk.joins ++ Offshoot.joins graph sentinel (Passage.offshoots passages) := by
  induction relations generalizing start walk with
  | nil =>
    cases h
    exact ⟨[], .nil, (List.append_nil _).symm⟩
  | cons edge rest ih =>
    rw [List.foldlM_cons] at h
    obtain ⟨passed, hpassed, h⟩ := bind_eq_ok h
    obtain ⟨front, hfront, htours⟩ := tours_of_pass honward start hpassed
    obtain ⟨passages, hrest, hjoins⟩ := ih (start + 1) h
    have hseen : sightingsFrom start index (edge :: rest) =
        sightingsFrom start index [edge] ++ sightingsFrom (start + 1) index rest := by
      rw [sightingsFrom, List.zipIdx_cons, ← List.singleton_append, List.filterMap_append]
      rfl
    refine ⟨front ++ passages, hseen ▸ htours hrest, ?_⟩
    rw [hjoins, hfront, Passage.offshoots_append, Offshoot.joins_append, List.append_assoc]

/-- Every walk that succeeds has a tour, and its joins are the offshoots of the tour. -/
theorem tours_of_walkFrom (graph : Graph) (sentinel : String) (levels : Nat) :
    OnwardTours graph sentinel (graph.walkFrom sentinel levels) := by
  have hscan {onward : Option Onward}
      (honward : ∀ way, onward = some way → OnwardTours graph sentinel way) :
      OnwardTours graph sentinel (graph.scan sentinel onward) := by
    intro index visited walked h
    rw [result_scan] at h
    obtain ⟨walk, hpasses, h⟩ := bind_eq_ok h
    cases h
    exact tours_of_foldlM honward 0 hpasses
  induction levels with
  | zero => exact hscan fun way h => by cases h
  | succ levels ih =>
    refine hscan fun way h => ?_
    cases h
    exact ih

end Graph

end Semijoin
