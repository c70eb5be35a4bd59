import Semijoin.Proofs.Branch.Arrangement
import Semijoin.Proofs.Branch.Sequence

/-!
# Trees as graphs and as chains

A tree of relations compiles to the same clauses whether it is written as a join graph or as one
join chain for each branch at the focus, and it is refused as too deep in both forms alike.
-/

namespace Semijoin

namespace Branch

variable {graph : Graph} {branches : List Branch}

/-- A graph that holds a tree is not refused. -/
theorem Holds.check (h : Holds graph branches) : graph.check = .ok () := by
  refine Graph.check_eq_ok_iff.mpr fun edge hedge => ?_
  obtain ⟨branch, hmem, rfl⟩ := List.mem_map.mp (h.relations.mem_iff.mp hedge)
  obtain ⟨near, hnear, -, hne, -⟩ := near?_of_mem h.grow h.distinct hmem
  obtain ⟨nearEnd, far, negate, flipped, origin, clauses, inner⟩ := branch
  simp only [near?, side, index?] at hnear hne
  cases flipped <;> simp only [Branch.edge, Edge.loop?] <;> grind

/-- A graph that holds a tree compiles to the clauses of its joins, or is refused as too deep when
the tree is higher than joins may nest. -/
theorem Holds.limited_compile (h : Holds graph branches) (sentinel : String) :
    Limited maxJoinDepth (maxHeight branches) (Join.clauses (joins sentinel branches))
      (graph.compile sentinel).result := by
  have hfocus : graph.checkFocus = .ok () := by
    rw [Graph.checkFocus, h.queries_focus]
    rfl
  have hfresh : ∀ other ∈ indices branches, other ∉ [graph.focus] := by
    rintro other hother hin
    rw [List.mem_singleton.mp hin] at hother
    exact (List.nodup_cons.mp h.distinct).1 hother
  have hwalk := scales_walkFrom graph sentinel maxJoinDepth graph.focus none branches
    [graph.focus] h.planted hfresh List.mem_cons_self (fun _ hnone => by cases hnone)
  rw [Graph.result_compile, h.check, hfocus]
  exact hwalk.map fun walked : Walked => Join.clauses walked.joins

/-- The clauses of branches stand one after the other. -/
theorem flatten_clauses (sentinel : String) (branches : List Branch) :
    (branches.map fun branch => Join.clauses [branch.join sentinel]).flatten =
      Join.clauses (joins sentinel branches) := by
  induction branches with
  | nil => rfl
  | cons first rest ih =>
    rw [List.map_cons, List.flatten_cons, ih]
    rfl

/-- The chains of branches compile one after the other, up to the limit of the highest. -/
theorem limited_mapM_compile (sentinel : String) (branches : List Branch) :
    Limited maxJoinDepth (maxHeight branches)
      (branches.map fun branch => Join.clauses [branch.join sentinel])
      (branches.mapM fun branch => (branch.chain.compile sentinel).result) := by
  induction branches with
  | nil => exact .ok _ _
  | cons first rest ih =>
    rw [List.mapM_cons, maxHeight]
    exact (limited_compile sentinel first).bind _ (ih.map fun parts : List (List Json) =>
      Join.clauses [first.join sentinel] :: parts)

/-- **Two forms of a tree.** A tree that is no higher than joins may nest compiles to the same
clauses as a graph and as chains, one for each branch at the focus. A higher one is refused as too
deep in both forms, and so are the chains of just the branches that are too high. -/
theorem compile_eq_sequences (h : Holds graph branches) (sentinel : String) :
    (maxHeight branches ≤ maxJoinDepth →
      ∃ parts, branches.mapM (fun branch => (branch.chain.compile sentinel).result) = .ok parts ∧
        (graph.compile sentinel).result = .ok parts.flatten) ∧
    (maxJoinDepth < maxHeight branches →
      (∃ origin, (graph.compile sentinel).result = .error (.malformed .tooDeep origin)) ∧
      ∃ origin, branches.mapM (fun branch => (branch.chain.compile sentinel).result) =
        .error (.malformed .tooDeep origin)) ∧
    ∀ branch ∈ branches, maxJoinDepth < branch.height ↔
      ∃ origin, (branch.chain.compile sentinel).result = .error (.malformed .tooDeep origin) := by
  have hgraph := h.limited_compile sentinel
  have hchains := limited_mapM_compile sentinel branches
  refine ⟨fun hle => ⟨_, hchains.within hle, ?_⟩,
    fun hlt => ⟨hgraph.beyond hlt, hchains.beyond hlt⟩, fun branch _ => ?_⟩
  · rw [hgraph.within hle, flatten_clauses]
  · have hbranch := limited_compile sentinel branch
    refine ⟨hbranch.beyond, fun ⟨origin, herror⟩ => Nat.lt_of_not_le fun hle => ?_⟩
    rw [hbranch.within hle] at herror
    cases herror

/-- A tree with a relation written the other way round, a negated one, and one without an
index. -/
def smallTree : List Branch :=
  [mk (.ofIndex "a" "x") (.ofIndex "b" "y") false true .root
    [.filter (.object [("match_all", .object [])])]
    [mk (.ofIndex "b" "x") (.ofIndex "c" "y") true false .root [] [],
      mk (.ofIndex "b" "z") { Endpoint.ofIndex "" "y" with indices := [] } false false .root [] []],
    mk (.ofIndex "a" "z") (.ofIndex "d" "y") false false .root [] []]

/-- The relations of the small tree from the last to the first. -/
def smallGraph : Graph where
  focus := "a"
  relations :=
    [⟨.ofIndex "b" "x", .ofIndex "c" "y", true, .root⟩,
      ⟨.ofIndex "b" "y", .ofIndex "a" "x", false, .root⟩,
      ⟨.ofIndex "b" "z", { Endpoint.ofIndex "" "y" with indices := [] }, false, .root⟩,
      ⟨.ofIndex "a" "z", .ofIndex "d" "y", false, .root⟩]
  queries := [("b", [.filter (.object [("match_all", .object [])])])]

/-- The small tree compiles to the same clauses as a graph and as chains. -/
theorem compile_smallTree : Holds smallGraph smallTree ∧ maxHeight smallTree ≤ maxJoinDepth ∧
    ∃ parts, smallTree.mapM (fun branch => (branch.chain.compile "none").result) = .ok parts ∧
      (smallGraph.compile "none").result = .ok parts.flatten := by
  have hholds : Holds smallGraph smallTree := by
    refine ⟨?_, by decide +kernel, by decide +kernel, by decide +kernel, by decide +kernel, ?_, rfl⟩
    · simp [smallTree, smallGraph, AllGrowAt, GrowsAt, Endpoint.index?, Endpoint.ofIndex]
    · simp [smallTree, smallGraph, allWithin, within, index?, clauses, Endpoint.index?,
        Endpoint.ofIndex, Graph.queriesFor]
      exact ⟨rfl, rfl⟩
  exact ⟨hholds, by decide, (compile_eq_sequences hholds "none").1 (by decide)⟩

end Branch

end Semijoin
