import Semijoin.Proofs.Graph.Component

/-!
# The joins of a component

A graph that compiles gives the joins of a tree that spans the component of its focus. Told from
that tree, each relation gives one join or none: one if it joins an index with its parent or if
it has only one index, and none if it leads further up the tree or lies outside the component.
-/

namespace Semijoin

open Relation

namespace Offshoot

/-- The offshoots, nested or not, that come from the relation at a place. -/
def along (position : Nat) (offshoots : List Offshoot) : List Offshoot :=
  (allWithin offshoots).filter fun offshoot => decide (offshoot.seen.position = position)

end Offshoot

namespace Graph

/-- One parent for every index of a component but the focus, from which all are reached. -/
structure SpanningTree (graph : Graph) (parent? : String → Option String) : Prop where
  parent?_focus : parent? graph.focus = none
  exists_parent : ∀ index, graph.Connected index → index ≠ graph.focus →
    ∃ parent, parent? index = some parent
  adjacent : ∀ index parent, parent? index = some parent →
    graph.Connected index ∧ graph.Connected parent ∧ graph.Adjacent parent index
  rooted : ∀ index, graph.Connected index →
    ReflTransGen (fun parent child => parent? child = some parent) graph.focus index

/-- What becomes of a relation that an index sees. A relation without a far index becomes a join,
and so does a relation to a child. What leaves the child is nested in the join of the first
relation that leads there. -/
def offshoot? (graph : Graph) (parent? : String → Option String)
    (leaving : String → List Offshoot) (index : String) (seen : Sighting) : Option Offshoot :=
  match seen.far? with
  | none => some ⟨seen, []⟩
  | some other =>
    if parent? other = some index then
      some ⟨seen, if graph.firstBetween? index other = some seen.position then leaving other
        else []⟩
    else none

/-- The offshoots that leave each index of a component are those of the relations it sees. -/
def Branches (graph : Graph) (parent? : String → Option String)
    (leaving : String → List Offshoot) : Prop :=
  ∀ index, graph.Connected index →
    leaving index = (graph.sightings index).filterMap (graph.offshoot? parent? leaving index)

/-- The joins, nested or not, that come from the relation at a place. -/
def joinsAlong (graph : Graph) (sentinel : String) (leaving : String → List Offshoot)
    (position : Nat) : List (Join × Bool) :=
  Offshoot.joins graph sentinel (Offshoot.along position (leaving graph.focus))

/-- What each relation of a graph gives. -/
structure JoinsEach (graph : Graph) (sentinel : String) (parent? : String → Option String)
    (leaving : String → List Offshoot) : Prop where
  /-- A relation to a child gives one join with the clauses of the child. The first relation
  nests what leaves the child behind them. -/
  child : ∀ position edge side index other, graph.relations[position]? = some edge →
    edge.orient? index = some side → side.far.index? = some other → parent? other = some index →
    graph.joinsAlong sentinel leaving position =
      [(((Join.bare sentinel side.near.path side.far).attaching
          (Join.clauseAttachments (graph.queriesFor other))).attaching
          (Join.joinAttachments
            (if graph.firstBetween? index other = some position then
              Offshoot.joins graph sentinel (leaving other)
            else [])), edge.negate)]
  /-- Any other relation between two indices of the component gives none, and leads from an
  index to an ancestor of it. -/
  kin : ∀ position edge one other, graph.relations[position]? = some edge →
    edge.Joins one other → graph.Connected one → graph.Connected other →
    parent? other ≠ some one → parent? one ≠ some other →
    graph.joinsAlong sentinel leaving position = [] ∧
      Kin (fun parent child => parent? child = some parent) one other
  /-- A relation from an index of the component to an endpoint without one gives one join
  against the sentinel. -/
  dangling : ∀ position edge side index, graph.relations[position]? = some edge →
    edge.orient? index = some side → side.far.index? = none → graph.Connected index →
    graph.joinsAlong sentinel leaving position =
      [(.unresolved side.near.path side.far.path sentinel, edge.negate)]
  /-- No other relation gives any: none that does not touch the component. -/
  apart : ∀ position, (∀ edge, graph.relations[position]? = some edge →
      ∀ index, graph.Connected index → edge.orient? index = none) →
    graph.joinsAlong sentinel leaving position = []
  /-- The join to a child compiles to a clause that carries those of the child and, for the first
  relation, what the joins that leave the child compile to. -/
  childClause : ∀ position edge side index other, graph.relations[position]? = some edge →
    edge.orient? index = some side → side.far.index? = some other → parent? other = some index →
    ∀ join ∈ graph.joinsAlong sentinel leaving position,
      join.1.toJson = Join.clauseOver side.near.path side.far.toTarget (graph.queriesFor other)
        (if graph.firstBetween? index other = some position then
          Offshoot.joins graph sentinel (leaving other)
        else [])
  /-- The join to an endpoint without an index compiles to a clause against the sentinel. -/
  danglingClause : ∀ position edge side index, graph.relations[position]? = some edge →
    edge.orient? index = some side → side.far.index? = none → graph.Connected index →
    ∀ join ∈ graph.joinsAlong sentinel leaving position,
      join.1.toJson = Join.clauseAgainst side.near.path side.far.path sentinel

variable {graph : Graph} {sentinel : String} {parent? : String → Option String}
  {leaving : String → List Offshoot}

/-- No two indices are each other's parents. -/
theorem SpanningTree.asymm (h : graph.SpanningTree parent?) {one other : String}
    (hone : parent? one = some other) : parent? other ≠ some one := by
  intro hother
  have hrooted := h.rooted one (h.adjacent one other hone).1
  induction hrooted generalizing other with
  | refl =>
    rw [h.parent?_focus] at hone
    cases hone
  | tail _ hstep ih =>
    rw [hstep] at hone
    cases hone
    exact ih hother hstep

/-- What becomes of the relation at a place, as an index sees it. -/
def outcome? (graph : Graph) (parent? : String → Option String) (leaving : String → List Offshoot)
    (position : Nat) (index : String) : Option Offshoot :=
  graph.relations[position]?.bind fun edge => (edge.orient? index).bind fun side =>
    graph.offshoot? parent? leaving index ⟨position, edge, side⟩

section Outcome

variable (graph parent? leaving) (position : Nat) {edge : Edge} {side : Orientation}
  {index one other : String} (hedge : graph.relations[position]? = some edge)

include hedge

/-- A relation between two indices becomes something only where the other is a child. -/
theorem outcome?_eq_none (hjoins : edge.Joins one other)
    (hone : index = one → parent? other ≠ some one)
    (hother : index = other → parent? one ≠ some other) :
    graph.outcome? parent? leaving position index = none := by
  rw [outcome?, hedge, Option.bind_some]
  cases hside : edge.orient? index with
  | none => rfl
  | some side =>
    rcases hjoins.eq_of_orient? hside with ⟨rfl, hfar⟩ | ⟨rfl, hfar⟩
    · simp [offshoot?, Sighting.far?, hfar, hone rfl]
    · simp [offshoot?, Sighting.far?, hfar, hother rfl]

/-- A relation to a child becomes an offshoot, and the first one nests what leaves the child. -/
theorem outcome?_of_child (hside : edge.orient? index = some side)
    (hfar : side.far.index? = some other) (hparent : parent? other = some index) :
    graph.outcome? parent? leaving position index =
      some ⟨⟨position, edge, side⟩,
        if graph.firstBetween? index other = some position then leaving other else []⟩ := by
  simp [outcome?, hedge, hside, offshoot?, Sighting.far?, hfar, hparent]

/-- A relation without a far index becomes an offshoot where it is seen. -/
theorem outcome?_of_dangling (hside : edge.orient? index = some side)
    (hfar : side.far.index? = none) :
    graph.outcome? parent? leaving position index = some ⟨⟨position, edge, side⟩, []⟩ := by
  simp [outcome?, hedge, hside, offshoot?, Sighting.far?, hfar]

/-- A relation becomes nothing where it is not seen. -/
theorem outcome?_of_orient?_eq_none (hside : edge.orient? index = none) :
    graph.outcome? parent? leaving position index = none := by
  simp [outcome?, hedge, hside]

end Outcome

/-- What leaves an index where a tour stops. -/
def leavingAt (stops : List Stop) (index : String) : List Offshoot :=
  ((stopAt? stops index).map fun stop => Passage.offshoots stop.passages).getD []

variable {stops : List Stop}

/-- What leaves a stop are the offshoots of what is passed there. -/
theorem Toured.leavingAt_index (h : graph.Toured stops) {stop : Stop} (hstop : stop ∈ stops) :
    leavingAt stops stop.index = Passage.offshoots stop.passages := by
  simp [leavingAt, stopAt?_index h.nodup hstop]

/-- The parent of a stop is the index from which it is entered. -/
theorem Toured.parentIn?_index (h : graph.Toured stops) {stop : Stop} (hstop : stop ∈ stops) :
    parentIn? stops stop.index = stop.parent? := by
  simp [parentIn?, stopAt?_index h.nodup hstop]

/-- A stop is a child of another exactly when a relation leads onward into it from there. -/
theorem Toured.parentIn?_eq_some_iff (h : graph.Toured stops) {outer : Stop}
    (houter : outer ∈ stops) (other : String) :
    parentIn? stops other = some outer.index ↔
      ∃ seen inside, .onward seen other inside ∈ outer.passages := by
  constructor
  · intro hparent
    obtain ⟨stop, hfound, hentered⟩ := Option.bind_eq_some_iff.mp hparent
    obtain ⟨hstop, rfl⟩ := stopAt?_eq_some hfound
    rcases h.entry stop hstop with ⟨-, hnone⟩ | ⟨outer', houter', seen, hsome, hpassed⟩
    · rw [hnone] at hentered
      cases hentered
    · have hindex : outer'.index = outer.index := by
        rw [hsome] at hentered
        exact Option.some.inj hentered
      have hfound' := stopAt?_index h.nodup houter'
      rw [hindex, stopAt?_index h.nodup houter] at hfound'
      cases hfound'
      exact ⟨seen, _, hpassed⟩
  · rintro ⟨seen, inside, hmem⟩
    exact h.parentIn?_index (h.onward outer houter seen other inside hmem)

/-- The stops of a tour of the component form a spanning tree. -/
theorem Toured.spanningTree (h : graph.Toured stops) : graph.SpanningTree (parentIn? stops) where
  parent?_focus := by
    obtain ⟨passages, hfocus, -⟩ := h.focus
    exact h.parentIn?_index hfocus
  exists_parent := by
    intro index hconnected hne
    obtain ⟨stop, hstop, rfl⟩ := (h.connected_iff index).mp hconnected
    rw [h.parentIn?_index hstop]
    rcases h.entry stop hstop with ⟨hfocus, -⟩ | ⟨outer, -, -, hparent, -⟩
    · exact absurd hfocus hne
    · exact ⟨_, hparent⟩
  adjacent := by
    intro index parent hparent
    obtain ⟨stop, hfound, hentered⟩ := Option.bind_eq_some_iff.mp hparent
    obtain ⟨hstop, rfl⟩ := stopAt?_eq_some hfound
    rcases h.entry stop hstop with ⟨-, hnone⟩ | ⟨outer, houter, seen, hsome, hpassed⟩
    · rw [hnone] at hentered
      cases hentered
    · rw [hsome] at hentered
      cases hentered
      obtain ⟨before, after, htour⟩ := h.tours outer houter
      exact ⟨(h.connected_iff _).mpr ⟨stop, hstop, rfl⟩,
        (h.connected_iff _).mpr ⟨outer, houter, rfl⟩, htour.adjacent_of_onward_mem hpassed⟩
  rooted := by
    intro index hconnected
    obtain ⟨stop, hstop, rfl⟩ := (h.connected_iff index).mp hconnected
    exact h.rooted stop hstop

/-- What becomes of a relation that is passed at a stop is told from the tree. -/
theorem Toured.offshoot?_eq (h : graph.Toured stops) {stop : Stop} (hstop : stop ∈ stops)
    {passage : Passage} (hmem : passage ∈ stop.passages) :
    passage.offshoot? =
      graph.offshoot? (parentIn? stops) (leavingAt stops) stop.index passage.seen := by
  obtain ⟨before, after, htour⟩ := h.tours stop hstop
  have hsorted := pairwise_sightings graph stop.index
  have hseen : passage.seen ∈ graph.sightings stop.index := by
    rw [← htour.map_seen]
    exact List.mem_map_of_mem hmem
  cases passage with
  | skipped seen =>
    obtain ⟨other, hfar, -, hnone⟩ := htour.of_skipped_mem hsorted hmem
    have hparent : parentIn? stops other ≠ some stop.index := by
      rw [Ne, h.parentIn?_eq_some_iff hstop other]
      rintro ⟨seen', inside, honward⟩
      exact hnone seen' inside honward
    simp [Passage.offshoot?, offshoot?, Passage.seen, hfar, hparent]
  | dangling seen =>
    have hfar := htour.of_dangling_mem hmem
    simp [Passage.offshoot?, offshoot?, Passage.seen, hfar]
  | again seen other =>
    change seen ∈ graph.sightings stop.index at hseen
    obtain ⟨hfar, hin | ⟨earlier, inside, honward, hlt⟩⟩ := htour.of_again_mem hsorted hmem
    · cases hin
    · have hparent := (h.parentIn?_eq_some_iff hstop other).mpr ⟨_, _, honward⟩
      have hlater : graph.firstBetween? stop.index other ≠ some seen.position := by
        rw [Ne, firstBetween?_eq_some_iff hseen hfar]
        intro hfirst
        have hearlier : earlier ∈ graph.sightings stop.index := by
          rw [← htour.map_seen]
          exact List.mem_map_of_mem honward
        have hle := hfirst earlier hearlier (htour.of_onward_mem hsorted honward).1
        omega
      simp [Passage.offshoot?, offshoot?, Passage.seen, hfar, hparent, hlater]
  | onward seen other inside =>
    change seen ∈ graph.sightings stop.index at hseen
    obtain ⟨hfar, -, -, hearliest⟩ := htour.of_onward_mem hsorted hmem
    have hparent := (h.parentIn?_eq_some_iff hstop other).mpr ⟨_, _, hmem⟩
    have hfirst := (firstBetween?_eq_some_iff hseen hfar).mpr hearliest
    have hleaving := h.leavingAt_index (h.onward stop hstop seen other inside hmem)
    simp only at hleaving
    simp [Passage.offshoot?, offshoot?, Passage.seen, hfar, hparent, hfirst, hleaving]

/-- What leaves the indices of a component branches as the tree does. -/
theorem Toured.branches (h : graph.Toured stops) :
    graph.Branches (parentIn? stops) (leavingAt stops) := by
  intro index hconnected
  obtain ⟨stop, hstop, rfl⟩ := (h.connected_iff index).mp hconnected
  obtain ⟨before, after, htour⟩ := h.tours stop hstop
  rw [h.leavingAt_index hstop, Passage.offshoots_eq_filterMap, ← htour.map_seen,
    List.filterMap_map]
  exact List.filterMap_congr fun passage hmem => h.offshoot?_eq hstop hmem

/-- An index sees the relation at a place once, if it touches it. -/
theorem filter_sightings (position : Nat) (index : String) :
    (graph.sightings index).filter (fun seen => decide (seen.position = position)) =
      (graph.relations[position]?.bind fun edge =>
        (edge.orient? index).map fun side => ⟨position, edge, side⟩).toList := by
  have hsorted := (pairwise_sightings graph index).filter
    fun seen => decide (seen.position = position)
  have hmem (seen : Sighting) : seen ∈ (graph.sightings index).filter
        (fun seen => decide (seen.position = position)) ↔
      (graph.relations[position]?.bind fun edge =>
        (edge.orient? index).map fun side => ⟨position, edge, side⟩) = some seen := by
    obtain ⟨position', edge, side⟩ := seen
    rw [List.mem_filter, mem_sightings]
    simp only [decide_eq_true_eq, Option.bind_eq_some_iff, Option.map_eq_some_iff,
      Sighting.mk.injEq]
    grind
  generalize (graph.sightings index).filter (fun seen => decide (seen.position = position))
    = found at hsorted hmem
  match found, hsorted, hmem with
  | [], _, hmem =>
    cases hside : (graph.relations[position]?.bind fun edge =>
      (edge.orient? index).map fun side => (⟨position, edge, side⟩ : Sighting)) with
    | none => rfl
    | some seen => cases (hmem seen).mpr hside
  | [seen], _, hmem =>
    rw [(hmem seen).mp List.mem_cons_self]
    rfl
  | one :: other :: rest, hsorted, hmem =>
    have hone := (hmem one).mp List.mem_cons_self
    have hother := (hmem other).mp (List.mem_cons_of_mem _ List.mem_cons_self)
    have hlt := List.rel_of_pairwise_cons hsorted (List.mem_cons_self (a := other))
    rw [hone] at hother
    cases hother
    omega

/-- What an index makes of the relations that it sees comes from the relation at a place once, if
the relation there is seen. -/
theorem filter_filterMap_place {α : Type} {give? : Sighting → Option α} {place : α → Nat}
    (h : ∀ seen given, give? seen = some given → place given = seen.position) (position : Nat)
    (index : String) :
    ((graph.sightings index).filterMap give?).filter
        (fun given => decide (place given = position)) =
      (graph.relations[position]?.bind fun edge => (edge.orient? index).bind fun side =>
        give? ⟨position, edge, side⟩).toList := by
  have hgive (seen : Sighting) :
      (give? seen).filter (fun given => decide (place given = position)) =
        if decide (seen.position = position) = true then give? seen else none := by
    cases hseen : give? seen with
    | none => simp
    | some given => simp [Option.filter, h seen given hseen]
  rw [List.filter_filterMap, funext hgive, ← List.filterMap_filter, filter_sightings]
  cases graph.relations[position]? with
  | none => rfl
  | some edge =>
    rw [Option.bind_some, Option.bind_some]
    cases edge.orient? index with
    | none => rfl
    | some side =>
      simp only [Option.map_some, Option.toList_some, Option.bind_some, List.filterMap_cons,
        List.filterMap_nil]
      cases give? ⟨position, edge, side⟩ <;> rfl

/-- Of what leaves an index, at most one offshoot comes from the relation at a place. -/
theorem filter_filterMap_sightings (position : Nat) (index : String) :
    ((graph.sightings index).filterMap (graph.offshoot? parent? leaving index)).filter
        (fun offshoot => decide (offshoot.seen.position = position)) =
      (graph.outcome? parent? leaving position index).toList := by
  have hseen (seen : Sighting) (offshoot : Offshoot)
      (h : graph.offshoot? parent? leaving index seen = some offshoot) :
      offshoot.seen.position = seen.position := by
    unfold offshoot? at h
    split at h
    · cases h
      rfl
    · split at h <;> cases h
      rfl
  exact filter_filterMap_place hseen position index

/-- The offshoots that come from the relation at a place are what it becomes at the stops. -/
theorem Toured.along_perm (h : graph.Toured stops) (position : Nat) :
    (Offshoot.along position (leavingAt stops graph.focus)).Perm
      (stops.filterMap fun stop =>
        graph.outcome? (parentIn? stops) (leavingAt stops) position stop.index) := by
  obtain ⟨passages, hfocus, hperm⟩ := h.focus
  have hbranches : ∀ stop ∈ stops, (Passage.offshoots stop.passages).filter
      (fun offshoot => decide (offshoot.seen.position = position)) =
        (graph.outcome? (parentIn? stops) (leavingAt stops) position stop.index).toList := by
    intro stop hstop
    have hconnected := (h.connected_iff stop.index).mpr ⟨stop, hstop, rfl⟩
    rw [← filter_filterMap_sightings position stop.index, ← h.branches stop.index hconnected,
      h.leavingAt_index hstop]
  have hleaving := h.leavingAt_index hfocus
  simp only at hleaving
  rw [Offshoot.along, hleaving]
  refine (hperm.filter _).trans (.of_eq ?_)
  rw [List.filter_flatMap, List.flatMap_congr hbranches, ← List.filterMap_eq_flatMap_toList]

/-- A relation that becomes nothing at any index gives no offshoot. -/
theorem Toured.along_eq_nil (h : graph.Toured stops) {position : Nat}
    (hnone : ∀ index, graph.Connected index →
      graph.outcome? (parentIn? stops) (leavingAt stops) position index = none) :
    Offshoot.along position (leavingAt stops graph.focus) = [] := by
  have hperm := h.along_perm position
  rw [List.filterMap_eq_nil_iff.mpr] at hperm
  · exact hperm.eq_nil
  · intro stop hstop
    exact hnone stop.index ((h.connected_iff stop.index).mpr ⟨stop, hstop, rfl⟩)

/-- Among stops with different indices, what only one index gives is given once. -/
theorem filterMap_index_eq_singleton {α : Type} (hnodup : (stops.map Stop.index).Nodup)
    {stop : Stop} (hstop : stop ∈ stops) {give? : String → Option α} {given : α}
    (hsome : give? stop.index = some given)
    (hnone : ∀ other ∈ stops, other.index ≠ stop.index → give? other.index = none) :
    stops.filterMap (fun stop => give? stop.index) = [given] := by
  induction stops with
  | nil => cases hstop
  | cons first rest ih =>
    rw [List.map_cons, List.nodup_cons] at hnodup
    by_cases heq : first.index = stop.index
    · have hfirst : give? first.index = some given := heq ▸ hsome
      rw [List.filterMap_cons, hfirst]
      refine congrArg (given :: ·) (List.filterMap_eq_nil_iff.mpr ?_)
      intro other hother
      refine hnone other (List.mem_cons_of_mem _ hother) fun hsame => hnodup.1 ?_
      rw [heq, ← hsame]
      exact List.mem_map_of_mem hother
    · have hrest : stop ∈ rest := by
        refine (List.mem_cons.mp hstop).resolve_left ?_
        rintro rfl
        exact heq rfl
      rw [List.filterMap_cons, hnone first List.mem_cons_self heq]
      exact ih hnodup.2 hrest fun other hother => hnone other (List.mem_cons_of_mem _ hother)

/-- A relation that becomes something at only one index gives one offshoot. -/
theorem Toured.along_eq_singleton (h : graph.Toured stops) {position : Nat} {index : String}
    (hconnected : graph.Connected index) {offshoot : Offshoot}
    (hsome : graph.outcome? (parentIn? stops) (leavingAt stops) position index = some offshoot)
    (hnone : ∀ other, graph.Connected other → other ≠ index →
      graph.outcome? (parentIn? stops) (leavingAt stops) position other = none) :
    Offshoot.along position (leavingAt stops graph.focus) = [offshoot] := by
  obtain ⟨stop, hstop, rfl⟩ := (h.connected_iff index).mp hconnected
  have hperm := h.along_perm position
  rw [filterMap_index_eq_singleton h.nodup hstop hsome] at hperm
  · exact List.perm_singleton.mp hperm
  · intro other hother
    exact hnone other.index ((h.connected_iff other.index).mpr ⟨other, hother, rfl⟩)

/-- A neighbour that is no child is above or below. -/
theorem Toured.kin_of_joins (h : graph.Toured stops) {position : Nat} {edge : Edge}
    {one other : String} (hedge : graph.relations[position]? = some edge)
    (hjoins : edge.Joins one other) (hone : graph.Connected one)
    (hnotChild : parentIn? stops other ≠ some one) :
    Kin (fun one other => parentIn? stops other = some one) one other := by
  obtain ⟨stop, hstop, rfl⟩ := (h.connected_iff one).mp hone
  obtain ⟨before, after, htour⟩ := h.tours stop hstop
  obtain ⟨side, hside, hfar⟩ := hjoins.orient?
  have hseen : ⟨position, edge, side⟩ ∈ graph.sightings stop.index :=
    mem_sightings.mpr ⟨hedge, hside⟩
  rw [← htour.map_seen, List.mem_map] at hseen
  obtain ⟨passage, hmem, hpassage⟩ := hseen
  -- What becomes no join at an index is skipped there.
  have hnone : passage.offshoot? = none := by
    rw [h.offshoot?_eq hstop hmem, hpassage]
    simp [offshoot?, Sighting.far?, hfar, hnotChild]
  cases passage with
  | skipped seen =>
    obtain ⟨far, hfar', hkin⟩ := h.kin stop hstop seen hmem
    rw [show seen = ⟨position, edge, side⟩ from hpassage, Sighting.far?, hfar] at hfar'
    cases hfar'
    exact hkin
  | dangling | again | onward => cases hnone

/-- A relation to a child gives one offshoot, and the first one nests what leaves the child. -/
theorem Toured.along_of_child (h : graph.Toured stops) {position : Nat} {edge : Edge}
    {side : Orientation} {index other : String} (hedge : graph.relations[position]? = some edge)
    (hside : edge.orient? index = some side) (hfar : side.far.index? = some other)
    (hparent : parentIn? stops other = some index) :
    Offshoot.along position (leavingAt stops graph.focus) = [⟨⟨position, edge, side⟩,
      if graph.firstBetween? index other = some position then leavingAt stops other else []⟩] := by
  obtain ⟨-, hindex, -⟩ := h.spanningTree.adjacent other index hparent
  refine h.along_eq_singleton hindex
    (outcome?_of_child graph _ _ position hedge hside hfar hparent) fun index' _ hne => ?_
  exact outcome?_eq_none graph _ _ position hedge (Edge.joins_of_orient? hside hfar)
    (fun heq => absurd heq hne) fun _ => h.spanningTree.asymm hparent

/-- A relation from the component to an endpoint without an index gives one offshoot. -/
theorem Toured.along_of_dangling (h : graph.Toured stops) {position : Nat} {edge : Edge}
    {side : Orientation} {index : String} (hedge : graph.relations[position]? = some edge)
    (hside : edge.orient? index = some side) (hfar : side.far.index? = none)
    (hindex : graph.Connected index) :
    Offshoot.along position (leavingAt stops graph.focus) = [⟨⟨position, edge, side⟩, []⟩] := by
  refine h.along_eq_singleton hindex
    (outcome?_of_dangling graph _ _ position hedge hside hfar) fun other _ hne => ?_
  refine outcome?_of_orient?_eq_none graph _ _ position hedge ?_
  cases hother : edge.orient? other with
  | none => rfl
  | some side' => exact absurd (Edge.eq_of_orient?_of_dangling hside hfar hother) hne

/-- The tour of a component tells what each relation gives. -/
theorem Toured.joinsEach (sentinel : String) (h : graph.Toured stops) :
    graph.JoinsEach sentinel (parentIn? stops) (leavingAt stops) where
  child := by
    intro position edge side index other hedge hside hfar hparent
    rw [joinsAlong, h.along_of_child hedge hside hfar hparent]
    simp only [Offshoot.joins, Offshoot.join, ownJoin, hfar]
    split_ifs <;> rfl
  kin := by
    intro position edge one other hedge hjoins hone hother hnotChild hnotParent
    constructor
    · rw [joinsAlong, h.along_eq_nil]
      · rfl
      · intro index _
        exact outcome?_eq_none graph _ _ position hedge hjoins (fun _ => hnotChild)
          fun _ => hnotParent
    · exact h.kin_of_joins hedge hjoins hone hnotChild
  dangling := by
    intro position edge side index hedge hside hfar hindex
    rw [joinsAlong, h.along_of_dangling hedge hside hfar hindex]
    simp [Offshoot.joins, Offshoot.join, Join.joinAttachments, ownJoin_of_index?_eq_none hfar]
  apart := by
    intro position happart
    rw [joinsAlong, h.along_eq_nil]
    · rfl
    · intro index hindex
      cases hedge : graph.relations[position]? with
      | none => rw [outcome?, hedge, Option.bind_none]
      | some edge =>
        exact outcome?_of_orient?_eq_none graph _ _ position hedge
          (happart edge hedge index hindex)
  childClause := by
    intro position edge side index other hedge hside hfar hparent join hjoin
    rw [joinsAlong, h.along_of_child hedge hside hfar hparent] at hjoin
    obtain rfl := List.mem_singleton.mp hjoin
    simp only [Offshoot.toJson_join, Offshoot.clauseOf, Offshoot.seen, Sighting.far?, hfar,
      Offshoot.nested]
    split_ifs <;> rfl
  danglingClause := by
    intro position edge side index hedge hside hfar hindex join hjoin
    rw [joinsAlong, h.along_of_dangling hedge hside hfar hindex] at hjoin
    obtain rfl := List.mem_singleton.mp hjoin
    simp only [Offshoot.toJson_join, Offshoot.clauseOf, Offshoot.seen, Sighting.far?, hfar]

/-- **The joins of a graph.** A graph that compiles gives the joins of a tree that spans the
component of its focus. What leaves an index is what its relations become: a relation without a
far index is a join against the sentinel, a relation to a child carries the clauses of the child,
and the first relation to a child also carries what leaves the child. No other relation gives a
join. What is carried stands in the clauses that the joins compile to. -/
theorem compile_spanningTree {clauses : List Json}
    (h : (graph.compile sentinel).result = .ok clauses) :
    ∃ parent? leaving, graph.SpanningTree parent? ∧ graph.Branches parent? leaving ∧
      clauses = Join.clauses (Offshoot.joins graph sentinel (leaving graph.focus)) ∧
      graph.JoinsEach sentinel parent? leaving := by
  rw [result_compile] at h
  obtain ⟨_, hcheck, h⟩ := bind_eq_ok h
  obtain ⟨_, hfocus, h⟩ := bind_eq_ok h
  obtain ⟨walked, hwalk, h⟩ := bind_eq_ok h
  cases h
  obtain ⟨passages, htour, hjoins⟩ := tours_of_walkFrom graph sentinel maxJoinDepth _ _ _ hwalk
  have htoured := toured_of_tours htour hcheck
  have hleaving := htoured.leavingAt_index List.mem_cons_self
  refine ⟨_, _, htoured.spanningTree, htoured.branches, ?_, htoured.joinsEach sentinel⟩
  rw [hjoins, ← hleaving]

/-- A triangle with a side written twice, a relation without a far index, and one apart. -/
def triangle : Graph where
  focus := "a"
  relations :=
    [⟨.ofIndex "a" "x", .ofIndex "b" "y", false, .root⟩,
      ⟨.ofIndex "c" "y", .ofIndex "b" "x", true, .root⟩,
      ⟨.ofIndex "a" "x", .ofIndex "c" "y", false, .root⟩,
      ⟨.ofIndex "b" "z", .ofIndex "a" "z", false, .root⟩,
      ⟨.ofIndex "c" "x", { Endpoint.ofIndex "" "y" with indices := [] }, true, .root⟩,
      ⟨.ofIndex "d" "x", .ofIndex "e" "y", false, .root⟩]
  queries := [("b", [.filter (.object [("match_all", .object [])])])]

/-- The joins of the triangle. -/
theorem compile_triangle : ∃ clauses, (triangle.compile "none").result = .ok clauses ∧
    ∃ parent? leaving, triangle.SpanningTree parent? ∧ triangle.Branches parent? leaving ∧
      clauses = Join.clauses (Offshoot.joins triangle "none" (leaving triangle.focus)) ∧
      triangle.JoinsEach "none" parent? leaving :=
  ⟨_, rfl, compile_spanningTree rfl⟩

end Graph

end Semijoin
