import Semijoin.Proofs.Graph.Refusal
import Semijoin.Proofs.Graph.Spanning
import Semijoin.Proofs.Join.Rearrangement

/-!
# Relations in another order

In a component without cycles only one tree spans it, so the order in which the relations are
written decides nothing but the order of the joins. With a cycle it also decides which of its
relations give joins, and where two indices are related twice, which of the two joins carries the
others.
-/

namespace Semijoin

open Relation

/-- A relation without the place where it was written. -/
def Edge.unplaced (edge : Edge) : Edge := { edge with origin := .root }

namespace Graph

/-- A way from an index back to itself over two others or more, none of them twice. -/
structure Cycle (graph : Graph) (index : String) (way : List String) : Prop where
  nodup : (index :: way).Nodup
  two_le : 2 ≤ way.length
  linked : (index :: way ++ [index]).IsChain graph.Adjacent

/-- There is no cycle in the component of the focus, and no two relations in it join the same
indices. -/
structure TreeShaped (graph : Graph) : Prop where
  acyclic : ∀ index way, graph.Connected index → ¬ graph.Cycle index way
  single : graph.relations.Pairwise fun edge edge' => ∀ one other, graph.Connected one →
    edge.Joins one other → ¬ edge'.Joins one other

variable {graph graph' : Graph} {sentinel : String} {parent? parent?' : String → Option String}
  {leaving leaving' : String → List Offshoot} {index one other : String} {side : Orientation}

/-- No index is above itself. -/
theorem SpanningTree.not_transGen_self (h : graph.SpanningTree parent?) (index : String) :
    ¬ TransGen (fun parent child => parent? child = some parent) index index := by
  intro hcycle
  have hconnected : graph.Connected index := by
    obtain ⟨parent, -, hparent⟩ := TransGen.tail'_iff.mp hcycle
    exact (h.adjacent index parent hparent).1
  induction h.rooted index hconnected with
  | refl =>
    obtain ⟨parent, -, hparent⟩ := TransGen.tail'_iff.mp hcycle
    rw [h.parent?_focus] at hparent
    cases hparent
  | tail _ hstep ih =>
    -- What is above its child is above itself by way of the child.
    obtain ⟨parent, habove, hparent⟩ := TransGen.tail'_iff.mp hcycle
    rw [hstep] at hparent
    cases hparent
    exact ih (TransGen.head' hstep habove) (h.adjacent _ _ hstep).2.1

/-- What is further below than a child is no neighbour, unless there is a cycle. -/
theorem SpanningTree.exists_cycle (h : graph.SpanningTree parent?)
    (hbelow : TransGen (fun parent child => parent? child = some parent) one other)
    (hchild : parent? other ≠ some one) (hadjacent : graph.Adjacent other one) :
    ∃ way, graph.Cycle one way := by
  obtain ⟨way, hchain, hlast⟩ :=
    List.exists_isChain_cons_of_relationReflTransGen hbelow.to_reflTransGen
  refine ⟨way, ?nodup, ?two_le, ?linked⟩
  case nodup =>
    have hpairwise : (one :: way).Pairwise
        (TransGen fun parent child => parent? child = some parent) :=
      List.isChain_iff_pairwise.mp (hchain.imp fun _ _ => .single)
    refine hpairwise.imp fun habove heq => ?_
    subst heq
    exact h.not_transGen_self _ habove
  case two_le =>
    match way, hchain, hlast with
    | [], _, hlast =>
      cases hlast
      exact absurd hbelow (h.not_transGen_self _)
    | [child], hchain, hlast =>
      cases hlast
      exact absurd (List.isChain_pair.mp hchain) hchild
    | _ :: _ :: _, _, _ => exact Nat.le_add_left 2 _
  case linked =>
    have hdown : (one :: way).IsChain graph.Adjacent :=
      hchain.imp fun _ _ hstep => (h.adjacent _ _ hstep).2.2
    refine hdown.append (List.isChain_singleton _) ?_
    rintro last hmem first ⟨⟩
    rw [List.getLast?_eq_some_getLast (List.cons_ne_nil _ _), hlast] at hmem
    cases hmem
    exact hadjacent

/-- Neighbours in a component without cycles are parent and child. -/
theorem TreeShaped.parent_or_child (h : graph.TreeShaped) (htree : graph.SpanningTree parent?)
    (heach : graph.JoinsEach sentinel parent? leaving) (hone : graph.Connected one)
    (hadjacent : graph.Adjacent one other) :
    parent? other = some one ∨ parent? one = some other := by
  have hother : graph.Connected other := hone.tail hadjacent
  obtain ⟨edge, hedge, hjoins⟩ := hadjacent
  obtain ⟨position, hposition⟩ := List.mem_iff_getElem?.mp hedge
  by_contra hnot
  obtain ⟨hnotChild, hnotParent⟩ := not_or.mp hnot
  obtain ⟨-, hbelow | hbelow⟩ :=
    heach.kin position edge one other hposition hjoins hone hother hnotChild hnotParent
  · obtain ⟨way, hcycle⟩ := htree.exists_cycle hbelow hnotChild ⟨edge, hedge, hjoins.symm⟩
    exact h.acyclic one way hone hcycle
  · obtain ⟨way, hcycle⟩ := htree.exists_cycle hbelow hnotParent ⟨edge, hedge, hjoins⟩
    exact h.acyclic other way hother hcycle

/-- A relation to a child is the first one to it, if no two relations join the same indices. -/
theorem TreeShaped.firstBetween? (h : graph.TreeShaped) (hone : graph.Connected one)
    {seen : Sighting} (hseen : seen ∈ graph.sightings one) (hfar : seen.far? = some other) :
    graph.firstBetween? one other = some seen.position := by
  have hplace {seen : Sighting} (hseen : seen ∈ graph.sightings one)
      (hfar : seen.far? = some other) : ∃ hlt : seen.position < graph.relations.length,
        graph.relations[seen.position].Joins one other := by
    obtain ⟨hposition, hside⟩ := mem_sightings.mp hseen
    obtain ⟨hlt, hedge⟩ := List.getElem?_eq_some_iff.mp hposition
    exact ⟨hlt, hedge ▸ Edge.joins_of_orient? hside hfar⟩
  obtain ⟨hlt, hjoins⟩ := hplace hseen hfar
  rw [firstBetween?_eq_some_iff hseen hfar]
  intro seen' hseen' hfar'
  obtain ⟨hlt', hjoins'⟩ := hplace hseen' hfar'
  refine Nat.le_of_not_lt fun hbefore => ?_
  exact List.pairwise_iff_getElem.mp h.single _ _ hlt' hlt hbefore one other hone hjoins' hjoins

/-- The join that an index gives for a relation in a component without cycles, told from the tree
and the joins that are found from each index. -/
def joinAt? (graph : Graph) (sentinel : String) (parent? : String → Option String)
    (found : String → List (Join × Bool)) (index : String) (edge : Edge) : Option (Join × Bool) :=
  (edge.orient? index).bind fun side =>
    match side.far.index? with
    | none => some (graph.ownJoin sentinel side, edge.negate)
    | some other =>
      if parent? other = some index then
        some ((graph.ownJoin sentinel side).attaching (Join.joinAttachments (found other)),
          edge.negate)
      else none

section JoinAt

variable {found : String → List (Join × Bool)} {edge : Edge}

/-- A relation without a far index gives a join against the sentinel. -/
theorem joinAt?_of_dangling (hside : edge.orient? index = some side)
    (hfar : side.far.index? = none) :
    graph.joinAt? sentinel parent? found index edge =
      some (.unresolved side.near.path side.far.path sentinel, edge.negate) := by
  simp [joinAt?, hside, hfar, ownJoin_of_index?_eq_none]

/-- A relation to a child gives a join that carries what is found there. -/
theorem joinAt?_of_child (hside : edge.orient? index = some side)
    (hfar : side.far.index? = some other) (hparent : parent? other = some index) :
    graph.joinAt? sentinel parent? found index edge =
      some ((graph.ownJoin sentinel side).attaching (Join.joinAttachments (found other)),
        edge.negate) := by
  simp [joinAt?, hside, hfar, hparent]

/-- Any other relation to an index gives none. -/
theorem joinAt?_of_not_child (hside : edge.orient? index = some side)
    (hfar : side.far.index? = some other) (hparent : parent? other ≠ some index) :
    graph.joinAt? sentinel parent? found index edge = none := by
  simp [joinAt?, hside, hfar, hparent]

/-- A relation gives none where it is not seen. -/
theorem joinAt?_of_orient?_eq_none (hside : edge.orient? index = none) :
    graph.joinAt? sentinel parent? found index edge = none := by
  rw [joinAt?, hside, Option.bind_none]

end JoinAt

/-- What is made of the relations that an index sees is made of all relations, if nothing is made of
those that do not touch it. -/
theorem filterMap_sightings {α : Type} {give? : Edge → Option α}
    (h : ∀ edge, edge.orient? index = none → give? edge = none) :
    (graph.sightings index).filterMap (fun seen => give? seen.edge) =
      graph.relations.filterMap give? := by
  conv => rhs; rw [← List.zipIdx_map_fst 0 graph.relations, List.filterMap_map]
  rw [sightings, sightingsFrom, List.filterMap_filterMap]
  refine List.filterMap_congr fun numbered _ => ?_
  obtain ⟨edge, position⟩ := numbered
  change ((edge.orient? index).map fun side => (⟨position, edge, side⟩ : Sighting)).bind _ =
    give? edge
  cases hside : edge.orient? index with
  | none => exact (h edge hside).symm
  | some side => rfl

/-- The joins that leave an index of a component without cycles are those of its relations, in the
order in which they are written. -/
theorem TreeShaped.joins_leaving (h : graph.TreeShaped)
    (hbranches : graph.Branches parent? leaving) (hindex : graph.Connected index) :
    Offshoot.joins graph sentinel (leaving index) =
      graph.relations.filterMap (graph.joinAt? sentinel parent?
        (fun other => Offshoot.joins graph sentinel (leaving other)) index) := by
  have hjoins (offshoots : List Offshoot) : Offshoot.joins graph sentinel offshoots =
      offshoots.map (Offshoot.join graph sentinel) := by
    induction offshoots with
    | nil => rfl
    | cons offshoot rest ih => exact congrArg (offshoot.join graph sentinel :: ·) ih
  have hseen : ∀ seen ∈ graph.sightings index,
      (graph.offshoot? parent? leaving index seen).map (Offshoot.join graph sentinel) =
        graph.joinAt? sentinel parent?
          (fun other => Offshoot.joins graph sentinel (leaving other)) index seen.edge := by
    intro seen hseen
    have hside := (mem_sightings.mp hseen).2
    cases hfar : seen.far? with
    | none =>
      rw [joinAt?_of_dangling hside hfar]
      simp [offshoot?, hfar, Offshoot.join_leaf, ownJoin_of_index?_eq_none hfar]
    | some other =>
      by_cases hparent : parent? other = some index
      · rw [joinAt?_of_child hside hfar hparent]
        simp [offshoot?, hfar, hparent, Offshoot.join, h.firstBetween? hindex hseen hfar]
      · rw [joinAt?_of_not_child hside hfar hparent]
        simp [offshoot?, hfar, hparent]
  rw [hbranches index hindex, hjoins, List.map_filterMap, List.filterMap_congr hseen]
  exact filterMap_sightings fun edge hside => joinAt?_of_orient?_eq_none hside

/-- Two graphs have the same relations, in some order and wherever they are written. -/
structure Reordered (graph graph' : Graph) : Prop where
  focus : graph'.focus = graph.focus
  queries : graph'.queries = graph.queries
  relations : (graph'.relations.map Edge.unplaced).Perm (graph.relations.map Edge.unplaced)

namespace Reordered

variable (h : Reordered graph graph')

include h

/-- The same indices are neighbours. -/
theorem adjacent_iff : graph'.Adjacent one other ↔ graph.Adjacent one other := by
  have hunplaced (graph : Graph) : graph.Adjacent one other ↔
      ∃ edge ∈ graph.relations.map Edge.unplaced, edge.Joins one other := by
    simp only [List.mem_map, exists_exists_and_eq_and]
    rfl
  rw [hunplaced, hunplaced]
  exact exists_congr fun edge => and_congr_left fun _ => h.relations.mem_iff

/-- The same indices are connected with the focus. -/
theorem connected_iff : graph'.Connected index ↔ graph.Connected index := by
  have hadjacent : graph'.Adjacent = graph.Adjacent := by
    funext one other
    exact propext h.adjacent_iff
  rw [Connected, Connected, hadjacent, h.focus]

/-- The same relations join an index with itself. -/
theorem check_eq_ok (hcheck : graph.check = .ok ()) : graph'.check = .ok () := by
  have hunplaced (graph : Graph) : graph.check = .ok () ↔
      ∀ edge ∈ graph.relations.map Edge.unplaced, edge.loop? = none := by
    rw [check_eq_ok_iff, List.forall_mem_map]
    rfl
  rw [hunplaced] at hcheck ⊢
  exact fun edge hedge => hcheck edge (h.relations.mem_iff.mp hedge)

/-- There are clauses for the focus in both graphs or in none. -/
theorem checkFocus_eq : graph'.checkFocus = graph.checkFocus := by
  rw [checkFocus, checkFocus, h.queries, h.focus]

/-- The component has no cycles in any order. -/
theorem treeShaped (htree : graph.TreeShaped) : graph'.TreeShaped where
  acyclic index way hconnected hcycle := by
    refine htree.acyclic index way (h.connected_iff.mp hconnected)
      ⟨hcycle.nodup, hcycle.two_le, hcycle.linked.imp fun _ _ => h.adjacent_iff.mp⟩
  single := by
    have hunplaced (graph' : Graph) : (graph'.relations.Pairwise fun edge edge' =>
        ∀ one other, graph.Connected one → edge.Joins one other → ¬ edge'.Joins one other) ↔
      (graph'.relations.map Edge.unplaced).Pairwise fun edge edge' =>
        ∀ one other, graph.Connected one → edge.Joins one other → ¬ edge'.Joins one other := by
      rw [List.pairwise_map]
      rfl
    have hsingle := (hunplaced graph).mp htree.single
    simp only [h.connected_iff]
    rw [hunplaced, h.relations.pairwise_iff]
    · exact hsingle
    · exact fun hsingle one other hone hjoins hjoins' => hsingle one other hone hjoins' hjoins

end Reordered

/-- What leaves a child is nested in what leaves its parent. -/
theorem TreeShaped.sizeOf_leaving_lt (h : graph.TreeShaped)
    (hbranches : graph.Branches parent? leaving) (hindex : graph.Connected index) {edge : Edge}
    {side : Orientation} (hedge : edge ∈ graph.relations) (hside : edge.orient? index = some side)
    (hfar : side.far.index? = some other) (hparent : parent? other = some index) :
    sizeOf (leaving other) < sizeOf (leaving index) := by
  obtain ⟨position, hposition⟩ := List.mem_iff_getElem?.mp hedge
  have hseen : ⟨position, edge, side⟩ ∈ graph.sightings index :=
    mem_sightings.mpr ⟨hposition, hside⟩
  have hfirst := h.firstBetween? hindex hseen hfar
  have hmem : ⟨⟨position, edge, side⟩, leaving other⟩ ∈ leaving index := by
    rw [hbranches index hindex]
    refine List.mem_filterMap.mpr ⟨_, hseen, ?_⟩
    simp [offshoot?, Sighting.far?, hfar, hparent, hfirst]
  have hlt := List.sizeOf_lt_of_mem hmem
  rw [Offshoot.mk.sizeOf_spec] at hlt
  omega

/-- Joins to an index resemble each other if those nested in them are rearranged. -/
theorem resembles_ownJoin (hfar : side.far.index? = some other) {joins joins' : List (Join × Bool)}
    (h : Join.Rearranged joins joins') :
    Join.Resembles ((graph.ownJoin sentinel side).attaching (Join.joinAttachments joins))
      ((graph.ownJoin sentinel side).attaching (Join.joinAttachments joins')) := by
  rw [ownJoin_attaching hfar, ownJoin_attaching hfar]
  exact .resolved _ _ _ h

namespace Reordered

variable (h : Reordered graph graph')

include h

/-- What is made of relations wherever they are written is made of them in any order. -/
theorem perm_filterMap {α : Type} {give? : Edge → Option α}
    (hgive : ∀ edge, give? edge = give? edge.unplaced) :
    (graph.relations.filterMap give?).Perm (graph'.relations.filterMap give?) := by
  have hunplaced (graph : Graph) : graph.relations.filterMap give? =
      (graph.relations.map Edge.unplaced).filterMap give? := by
    rw [List.filterMap_map]
    exact List.filterMap_congr fun edge _ => hgive edge
  rw [hunplaced, hunplaced]
  exact h.relations.symm.filterMap give?

/-- Relations give the same joins of their own. -/
theorem ownJoin_eq (side : Orientation) :
    graph'.ownJoin sentinel side = graph.ownJoin sentinel side := by
  have hqueries : graph'.queriesFor = graph.queriesFor := by
    funext index
    rw [queriesFor, queriesFor, h.queries]
  rw [ownJoin, ownJoin, hqueries]

section Trees

variable (hshape : graph.TreeShaped) (htree : graph.SpanningTree parent?)
  (hbranches : graph.Branches parent? leaving) (htree' : graph'.SpanningTree parent?')
  (hbranches' : graph'.Branches parent?' leaving')
  (heach' : graph'.JoinsEach sentinel parent?' leaving')

include hshape htree htree' heach'

/-- Only one tree spans a component without cycles. -/
theorem parent?_eq (hindex : graph.Connected index) : parent?' index = parent? index := by
  induction htree.rooted index hindex with
  | refl => rw [htree.parent?_focus, ← h.focus, htree'.parent?_focus]
  | @tail parent child _ hparent ih =>
    obtain ⟨-, hconnected, hadjacent⟩ := htree.adjacent child parent hparent
    rcases (h.treeShaped hshape).parent_or_child htree' heach' (h.connected_iff.mpr hconnected)
      (h.adjacent_iff.mpr hadjacent) with hchild | hupward
    · rw [hchild, hparent]
    · -- The parent would have its child for a parent in the first tree as well.
      rw [ih hconnected] at hupward
      exact absurd hupward (htree.asymm hparent)

/-- A relation gives joins that resemble each other, or none in both orders, if what is found from a
child is rearranged. -/
theorem joinAt?_resembles {found found' : String → List (Join × Bool)}
    (hindex : graph.Connected index) {edge : Edge} (hedge : edge ∈ graph.relations)
    (hfound : ∀ side other, edge.orient? index = some side → side.far.index? = some other →
      parent? other = some index → Join.Rearranged (found other) (found' other)) :
    graph.joinAt? sentinel parent? found index edge = none ∧
        graph'.joinAt? sentinel parent?' found' index edge = none ∨
      ∃ join join' negate,
        graph.joinAt? sentinel parent? found index edge = some (join, negate) ∧
        graph'.joinAt? sentinel parent?' found' index edge = some (join', negate) ∧
        Join.Resembles join join' := by
  cases hside : edge.orient? index with
  | none => exact .inl ⟨joinAt?_of_orient?_eq_none hside, joinAt?_of_orient?_eq_none hside⟩
  | some side =>
    cases hfar : side.far.index? with
    | none =>
      exact .inr ⟨_, _, edge.negate, joinAt?_of_dangling hside hfar,
        joinAt?_of_dangling hside hfar, .unresolved _ _ _⟩
    | some other =>
      have hother : graph.Connected other :=
        hindex.tail ⟨edge, hedge, Edge.joins_of_orient? hside hfar⟩
      have hparents := h.parent?_eq hshape htree htree' heach' hother
      by_cases hparent : parent? other = some index
      · refine .inr ⟨_, _, edge.negate, joinAt?_of_child hside hfar hparent,
          joinAt?_of_child hside hfar (hparents.trans hparent), ?_⟩
        rw [h.ownJoin_eq]
        exact resembles_ownJoin hfar (hfound side other hside hfar hparent)
      · exact .inl ⟨joinAt?_of_not_child hside hfar hparent,
          joinAt?_of_not_child hside hfar (hparents ▸ hparent)⟩

include hbranches hbranches'

/-- **What leaves an index of a component without cycles is the same in any order**, but for the
order of the joins. -/
theorem rearranged_leaving (hindex : graph.Connected index) :
    Join.Rearranged (Offshoot.joins graph sentinel (leaving index))
      (Offshoot.joins graph' sentinel (leaving' index)) := by
  -- The induction goes up from the children: what leaves them is nested in what leaves the index.
  induction hsize : sizeOf (leaving index) using Nat.strongRecOn generalizing index with
  | ind size ih =>
    rw [hshape.joins_leaving hbranches hindex,
      (h.treeShaped hshape).joins_leaving hbranches' (h.connected_iff.mpr hindex)]
    refine .perm (.filterMap fun edge hedge => ?_) (h.perm_filterMap fun _ => rfl)
    refine h.joinAt?_resembles hshape htree htree' heach' hindex hedge ?_
    intro side other hside hfar hparent
    have hother := (htree.adjacent other index hparent).1
    have hlt := hshape.sizeOf_leaving_lt hbranches hindex hedge hside hfar hparent
    exact ih _ (hsize ▸ hlt) hother rfl

end Trees

end Reordered

/-- A graph that passes its checks has a tree, and compiles to the joins of the tree unless they
nest too deep. -/
theorem exists_limited_tree (hcheck : graph.check = .ok ()) (hfocus : graph.checkFocus = .ok ())
    (sentinel : String) : ∃ parent? leaving,
    graph.SpanningTree parent? ∧ graph.Branches parent? leaving ∧
      graph.JoinsEach sentinel parent? leaving ∧
      Limited maxJoinDepth (Join.maxDepth (Offshoot.joins graph sentinel (leaving graph.focus)))
        (Join.clauses (Offshoot.joins graph sentinel (leaving graph.focus)))
        (graph.compile sentinel).result := by
  obtain ⟨passages, visited, htour, -⟩ := graph.exists_tour sentinel
  have htoured := toured_of_tours htour hcheck
  refine ⟨_, _, htoured.spanningTree, htoured.branches, htoured.joinsEach sentinel, ?_⟩
  have hleaving := htoured.leavingAt_index List.mem_cons_self
  simp only at hleaving
  rw [hleaving, htour.result_compile_eq_reach (check_eq_ok_iff.mp hcheck)
    (checkFocus_eq_ok_iff_lookup.mp hfocus)]
  refine Rung.limited_reach ?_ _
  have htell := @Tours.rungsTell graph sentinel _ _ _ _ _ htour 0 maxJoinDepth
  rwa [Nat.zero_add, Nat.zero_add] at htell

/-- **The order of relations does not matter without cycles.** If the component of the focus has no
cycles and no two of its indices are related twice, the graph is refused as too deep with its
relations in any order, or with none. Otherwise it compiles to the same joins, but for the order in
which they stand side by side. -/
theorem compile_reordered (h : Reordered graph graph') (hcheck : graph.check = .ok ())
    (hfocus : graph.checkFocus = .ok ()) (hshape : graph.TreeShaped) (sentinel : String) :
    (∃ place place', (graph.compile sentinel).result = .error (.malformed .tooDeep place) ∧
        (graph'.compile sentinel).result = .error (.malformed .tooDeep place')) ∨
      ∃ joins joins', (graph.compile sentinel).result = .ok (Join.clauses joins) ∧
        (graph'.compile sentinel).result = .ok (Join.clauses joins') ∧
        Join.Rearranged joins joins' ∧
        Json.Rearranged (Join.clauses joins) (Join.clauses joins') := by
  obtain ⟨parent?, leaving, htree, hbranches, -, hlimited⟩ :=
    exists_limited_tree hcheck hfocus sentinel
  obtain ⟨parent?', leaving', htree', hbranches', heach', hlimited'⟩ :=
    exists_limited_tree (h.check_eq_ok hcheck) (h.checkFocus_eq.trans hfocus) sentinel
  have hjoins := h.rearranged_leaving hshape htree hbranches htree' hbranches' heach' .refl
  rw [h.focus, ← hjoins.maxDepth_eq] at hlimited'
  rcases Nat.lt_or_ge maxJoinDepth
    (Join.maxDepth (Offshoot.joins graph sentinel (leaving graph.focus))) with hdeep | hwithin
  · obtain ⟨place, hplace⟩ := hlimited.beyond hdeep
    obtain ⟨place', hplace'⟩ := hlimited'.beyond hdeep
    exact .inl ⟨place, place', hplace, hplace'⟩
  · exact .inr ⟨_, _, hlimited.within hwithin, hlimited'.within hwithin, hjoins, hjoins.clauses⟩

/-- An index amid three others, one of which is the focus and has a relation without a far index. -/
def star : Graph where
  focus := "a"
  relations :=
    [⟨.ofIndex "a" "x", { Endpoint.ofIndex "" "y" with indices := [] }, false, .root⟩,
      ⟨.ofIndex "b" "y", .ofIndex "a" "z", false, .root⟩,
      ⟨.ofIndex "b" "c_id", .ofIndex "c" "id", false, .root⟩,
      ⟨.ofIndex "d" "id", .ofIndex "b" "d_id", false, .root⟩]
  queries := [("b", [.filter (.object [])])]

/-- The star with its relations from the last to the first. -/
def starReversed : Graph := { star with relations := star.relations.reverse }

/-- Every relation of the star leads to or from the index amid the others. -/
theorem star_adjacent (h : star.Adjacent one other) :
    one = "b" ∧ other ≠ "b" ∨ one ≠ "b" ∧ other = "b" := by
  simp only [Adjacent, star, Edge.Joins, Endpoint.ofIndex, Endpoint.index?, List.mem_cons,
    List.not_mem_nil, or_false, exists_eq_or_imp, exists_eq_left, List.head?_cons, List.head?_nil,
    Option.some.injEq] at h
  grind

/-- The star is shaped like a tree: every second index on a way is the one amid the others. -/
theorem star_treeShaped : star.TreeShaped where
  acyclic index way _ hcycle := by
    obtain ⟨hnodup, htwo, hlinked⟩ := hcycle
    match way, htwo with
    | second :: third :: rest, _ =>
      rw [List.cons_append, List.cons_append, List.isChain_cons_cons, List.cons_append,
        List.isChain_cons_cons] at hlinked
      obtain ⟨hfirst, hsecond, hrest⟩ := hlinked
      have hthird : ∀ next ∈ (rest ++ [index]).head?, star.Adjacent third next :=
        (List.isChain_cons.mp hrest).1
      have hfirst := star_adjacent hfirst
      have hsecond := star_adjacent hsecond
      cases rest with
      | nil =>
        have hthird := star_adjacent (hthird index rfl)
        grind
      | cons next rest =>
        have hthird := star_adjacent (hthird next rfl)
        grind
  single := by
    simp only [star, Edge.Joins, Endpoint.ofIndex, Endpoint.index?, List.pairwise_cons,
      List.mem_cons, List.not_mem_nil, or_false]
    grind

/-- The star gives the same joins, but for their order, when its relations are reversed. -/
theorem compile_reordered_star : ∃ joins joins',
    (star.compile "none").result = .ok (Join.clauses joins) ∧
      (starReversed.compile "none").result = .ok (Join.clauses joins') ∧
      Join.Rearranged joins joins' ∧ Json.Rearranged (Join.clauses joins) (Join.clauses joins') ∧
      Join.clauses joins ≠ Join.clauses joins' := by
  have hreordered : Reordered star starReversed :=
    ⟨rfl, rfl, (List.reverse_perm _).map _⟩
  rcases compile_reordered hreordered rfl rfl star_treeShaped "none" with
    ⟨place, _, hplace, -⟩ | ⟨joins, joins', hjoins, hjoins', hrearranged, hclauses⟩
  · cases hplace
  · refine ⟨joins, joins', hjoins, hjoins', hrearranged, hclauses, fun heq => ?_⟩
    have hresults : (star.compile "none").result = (starReversed.compile "none").result := by
      rw [hjoins, hjoins', heq]
    exact absurd hresults (by decide)

end Graph

end Semijoin
