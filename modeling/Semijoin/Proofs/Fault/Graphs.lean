import Semijoin.Proofs.Fault.Reading
import Semijoin.Proofs.Graph.Descent
import Semijoin.Proofs.Graph.Neighbours

/-!
# Walks that go too deep

A walk fails where it has come as far from the focus as joins may be nested and a relation leads on.
The indices on its way are all different, and each is related to the next one in the text of the
graph, so the way can be found there without walking.
-/

namespace Semijoin

open Json

/-- Links that lead to an index lead on over a further link to an index that is not on the way. -/
theorem Json.Leads.concat {linked : String → String → Prop} {focus index other : String}
    {way : List String} (h : Leads linked focus way index) (hlinked : linked index other)
    (hnew : other ∉ focus :: way) : Leads linked focus (way ++ [other]) other where
  nodup := by
    rw [← List.cons_append]
    exact List.nodup_append.mpr ⟨h.nodup, List.pairwise_singleton _ other, by
      rintro one hone _ htwo rfl
      cases List.mem_singleton.mp htwo
      exact hnew hone⟩
  linked := by
    rw [← List.cons_append]
    refine h.linked.append (List.isChain_singleton other) ?_
    rintro one hone _ ⟨⟩
    cases h.last.symm.trans hone
    exact hlinked
  last := by rw [← List.cons_append, List.getLast?_concat]

namespace Graph

/-- A relation at which a walk is exhausted: a way of some length leads from the focus to one of its
indices, and the other one is not on the way. -/
structure Exhausted (graph : Graph) (length : Nat) (edge : Edge) : Prop where
  mem : edge ∈ graph.relations
  leads : ∃ way index side, Leads graph.Adjacent graph.focus way index ∧ way.length = length ∧
    edge.orient? index = some side ∧
    ∀ other, side.far.index? = some other → other ∉ graph.focus :: way

variable {graph : Graph} {sentinel : String} {index : String} {walk walk' : Walk} {edge : Edge}

/-- What a walk does if it fails at a relation: it may not go on there, or it fails further on. -/
theorem of_pass_eq_error {onward : Option Onward} {fault : Fault}
    (h : (graph.pass sentinel onward index walk edge).result = .error fault) :
    ∃ side, edge.orient? index = some side ∧
      ((onward = none ∧ fault = .malformed .tooDeep edge.origin ∧
        ∀ other, side.far.index? = some other → other ∈ walk.entered ∨ other ∉ walk.visited) ∨
      ∃ way other, onward = some way ∧ side.far.index? = some other ∧ other ∉ walk.visited ∧
        (way other (other :: walk.visited)).result = .error fault) := by
  have hpassed := @passed_pass graph sentinel index walk edge onward
  rw [h] at hpassed
  generalize houtcome : Except.error fault = outcome at hpassed
  cases hpassed with
  | untouched | skipped | dangling | again => cases houtcome
  | tooDeep hside hopen =>
    cases houtcome
    exact ⟨_, hside, .inl ⟨rfl, rfl, hopen⟩⟩
  | onward hside hfar _ hvisited =>
    rcases bind_eq_error houtcome.symm with hway | ⟨_, -, hwalk⟩
    · exact ⟨_, hside, .inr ⟨_, _, rfl, hfar, hvisited, hway⟩⟩
    · cases hwalk

/-- Where no join may be built, a walk that gets past a relation is as before. -/
theorem eq_of_pass_none (h : (graph.pass sentinel none index walk edge).result = .ok walk') :
    walk' = walk := by
  have hpassed := @passed_pass graph sentinel index walk edge none
  rw [h] at hpassed
  cases hpassed with
  | untouched | skipped => rfl

/-- Where joins may be built, a walk that gets past a relation has visited what it had before. -/
theorem visited_subset_of_pass {levels : Nat}
    (h : (graph.pass sentinel (some (graph.walkFrom sentinel levels)) index walk edge).result =
      .ok walk') : ∀ other ∈ walk.visited, other ∈ walk'.visited := by
  have honward (way : Onward) (hway : some (graph.walkFrom sentinel levels) = some way) :
      OnwardTours graph sentinel way := by
    cases hway
    exact tours_of_walkFrom graph sentinel levels
  obtain ⟨front, -, htours⟩ := tours_of_pass honward 0 h
  exact (htours .nil).subset

/-- A walk that has come to an index over a way that it has visited fails only where it has gone on
over as many relations as joins may be nested. -/
theorem exhausted_walkFrom (levels : Nat) {visited way : List String}
    (hleads : Leads graph.Adjacent graph.focus way index)
    (hvisited : ∀ other ∈ graph.focus :: way, other ∈ visited) :
    FaultsAre (fun fault => ∃ edge, graph.Exhausted (way.length + levels) edge ∧
        fault = .malformed .tooDeep edge.origin)
      (graph.walkFrom sentinel levels index visited).result := by
  induction levels generalizing index visited way with
  | zero =>
    rw [walkFrom, result_scan]
    -- Nothing is entered, so a relation that leads to a visited index is skipped.
    refine .bind (.foldlM (· = ⟨visited, [], []⟩) ?_ ?_ rfl) fun _ _ => .ok _
    · rintro _ rfl edge hedge fault hfault
      obtain ⟨side, hside, ⟨-, hdeep, hopen⟩ | ⟨_, _, hway, -⟩⟩ := of_pass_eq_error hfault
      · refine ⟨edge, ⟨hedge, way, index, side, hleads, rfl, hside, ?_⟩, hdeep⟩
        intro other hfar hmem
        have hnew : other ∉ visited := (hopen other hfar).resolve_left List.not_mem_nil
        exact hnew (hvisited other hmem)
      · cases hway
    · rintro _ rfl edge - walk hwalk
      exact eq_of_pass_none hwalk
  | succ levels ih =>
    rw [walkFrom, result_scan]
    -- What was visited stays visited, so a relation that is gone on over leaves the way.
    refine .bind (.foldlM (fun walk => ∀ other ∈ visited, other ∈ walk.visited) ?_ ?_
      fun _ => id) fun _ _ => .ok _
    · intro walk hwalk edge hedge fault hfault
      obtain ⟨side, hside, ⟨hnone, -⟩ | ⟨onward, other, honward, hfar, hnew, hfault⟩⟩ :=
        of_pass_eq_error hfault
      · cases hnone
      · cases honward
        have hoff : other ∉ graph.focus :: way :=
          fun hmem => hnew (hwalk other (hvisited other hmem))
        have hon := hleads.concat ⟨edge, hedge, Edge.joins_of_orient? hside hfar⟩ hoff
        have hlength : (way ++ [other]).length + levels = way.length + (levels + 1) := by
          rw [List.length_append, List.length_singleton]
          omega
        rw [← hlength]
        refine ih hon ?_ fault hfault
        intro earlier hearlier
        rw [← List.cons_append] at hearlier
        rcases List.mem_append.mp hearlier with hearlier | hother
        · exact List.mem_cons_of_mem _ (hwalk earlier (hvisited earlier hearlier))
        · cases List.mem_singleton.mp hother
          exact List.mem_cons_self
    · intro walk hwalk edge _ next hnext other hother
      exact visited_subset_of_pass hnext other (hwalk other hother)

end Graph

variable {document : Json} {place : Pointer} {value : Json}

/-- The endpoint at the index from which a relation is seen, and the one at the other side, stand in
the text of the relation. -/
theorem Edge.exists_near_of_orient? {edge : Edge} (hread : Edge.read place value = .ok edge)
    {index : String} {side : Orientation} (hside : edge.orient? index = some side) :
    ∃ near far, Json.Joins value near far ∧ near.firstIndex? = some index ∧
      far.firstIndex? = side.far.index? := by
  obtain ⟨first, second, hwritten, hfirst, hsecond⟩ := Edge.exists_of_read hread
  unfold orient? at hside
  split at hside
  · rename_i hindex
    cases hside
    exact ⟨first, second, .inl hwritten, hfirst.index?.symm.trans hindex, hsecond.index?.symm⟩
  · split at hside
    · rename_i hindex
      cases hside
      exact ⟨second, first, .inr hwritten, hsecond.index?.symm.trans hindex, hfirst.index?.symm⟩
    · cases hside

namespace Graph

variable {graph : Graph} {sentinel : String}

/-- The focus of a graph is the text under its key. -/
theorem lookup_of_readFocus {members : List (String × Json)} {focus : String}
    (h : readFocus members place = .ok focus) : members.lookup "focus" = some (.string focus) := by
  unfold readFocus at h
  split at h
  · cases h
  · rename_i hfind
    cases h
    exact (Field.lookup_of_find? hfind).1
  · cases h

/-- A relation at which nothing more may be nested is one in the text of the graph. -/
theorem Exhausted.shownIn (hstands : Part.graph.StandsAt document place value)
    (hread : read place value = .ok graph) {edge : Edge}
    (h : graph.Exhausted maxJoinDepth edge) :
    (Fault.malformed .tooDeep edge.origin).ShownIn document := by
  obtain ⟨members, rfl, hreadFocus, hrelations, -, -⟩ := read_eq_ok_iff.mp hread
  have hfocus := lookup_of_readFocus hreadFocus
  obtain ⟨relations, position, relation, hlookup, hrelation, horigin, hedge⟩ :=
    exists_of_mem_relations hrelations h.mem
  have hlinked {index other : String} (hadjacent : graph.Adjacent index other) :
      Linked relations index other := by
    obtain ⟨edge, hmem, hjoins⟩ := hadjacent
    obtain ⟨side, hside, hfar⟩ := hjoins.orient?
    obtain ⟨relations', _, relation, hlookup', hrelation, -, hedge⟩ :=
      exists_of_mem_relations hrelations hmem
    cases hlookup.symm.trans hlookup'
    obtain ⟨near, far, hjoins, hnear, hfar'⟩ := Edge.exists_near_of_orient? hedge hside
    exact ⟨relation, List.mem_of_getElem? hrelation, near, far, hjoins, hnear, hfar'.trans hfar⟩
  obtain ⟨way, index, side, hleads, hlength, hside, hoff⟩ := h.leads
  obtain ⟨near, far, hjoins, hnear, hfar⟩ := Edge.exists_near_of_orient? hedge hside
  have hrelations : Part.relations.StandsAt _ _ _ := hstands.member hlookup (by decide)
  have hfound : Part.edge.StandsAt document edge.origin relation :=
    horigin ▸ hrelations.element hrelation rfl
  refine Fault.shownIn_of rfl hfound.resolve? (.inr ?_)
  refine ⟨place, members, graph.focus, relations, position, way, index, near, far, horigin, hstands,
    exists_read_iff.mp ⟨graph, hread⟩, hfocus, hlookup, hrelation, ?_, hlength, hjoins, hnear, ?_⟩
  · exact ⟨hleads.nodup, hleads.linked.imp fun _ _ => hlinked, hleads.last⟩
  · exact fun other hother => hoff other (hfar ▸ hother)

/-- Clauses for the focus are a fault without a place. -/
theorem shownIn_checkFocus (graph : Graph) :
    FaultsAre (Fault.ShownIn document) graph.checkFocus := by
  unfold checkFocus
  split
  · exact .throw nofun
  · exact .pure ()

/-- A fault in compiling a graph that has been read is shown. -/
theorem shownIn_compile (hstands : Part.graph.StandsAt document place value)
    (hread : read place value = .ok graph) :
    FaultsAre (Fault.ShownIn document) (graph.compile sentinel).result := by
  obtain ⟨_, -, -, -, -, hcheck⟩ := read_eq_ok_iff.mp hread
  have hstart : Leads graph.Adjacent graph.focus [] graph.focus :=
    ⟨List.pairwise_singleton _ _, List.isChain_singleton _, rfl⟩
  have hwalk := @exhausted_walkFrom graph sentinel graph.focus maxJoinDepth [graph.focus] [] hstart
    fun _ => id
  rw [result_compile, hcheck]
  refine .bind (.ok ()) fun _ _ => .bind graph.shownIn_checkFocus fun _ _ => ?_
  refine .bind ?_ fun _ _ => .ok _
  intro fault hfault
  obtain ⟨edge, hexhausted, rfl⟩ := hwalk fault hfault
  rw [List.length_nil, Nat.zero_add] at hexhausted
  exact hexhausted.shownIn hstands hread

end Graph

end Semijoin
