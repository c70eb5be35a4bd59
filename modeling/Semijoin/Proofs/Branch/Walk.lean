import Semijoin.Proofs.Branch.Basic
import Semijoin.Proofs.Chain.Limit
import Semijoin.Proofs.Graph.Passing

/-!
# Walking up the branches of a tree

In a join graph whose relations form a tree, the walk from an index finds the joins of what
branches off there. It is refused exactly when a branch is higher than joins may still nest.
-/

namespace Semijoin

namespace Branch

/-- The index that a branch leads to comes before those beyond it. -/
theorem indices_cons (first : Branch) (rest : List Branch) :
    indices (first :: rest) =
      first.index?.toList ++ indices first.branches ++ indices rest := by
  obtain ⟨near, far, negate, flipped, origin, clauses, branches⟩ := first
  simp only [indices, allWithin, within, List.filterMap_append, List.filterMap_cons, index?,
    Branch.branches]
  cases far.index? <;> rfl

/-- Every relation that touches an index leads back to the index above it or into one of its
branches, which come in order. -/
inductive Arranged (index : String) (above? : Option String) : List Edge → List Branch → Prop
  | nil : Arranged index above? [] []
  | apart {edge : Edge} {rest : List Edge} {branches : List Branch}
      (hedge : edge.orient? index = none) (hrest : Arranged index above? rest branches) :
      Arranged index above? (edge :: rest) branches
  | above {edge : Edge} {side : Orientation} {other : String} {rest : List Edge}
      {branches : List Branch} (hedge : edge.orient? index = some side)
      (hfar : side.far.index? = some other) (habove : above? = some other)
      (hrest : Arranged index above? rest branches) :
      Arranged index above? (edge :: rest) branches
  | branch {first : Branch} {rest : List Edge} {branches : List Branch}
      (hfirst : first.edge.orient? index = some first.side)
      (hrest : Arranged index above? rest branches) :
      Arranged index above? (first.edge :: rest) (first :: branches)

/-- A graph holds the branches of an index and all that branches off from them. -/
structure Planted (graph : Graph) (index : String) (above? : Option String)
    (branches : List Branch) : Prop where
  grow : AllGrowAt index branches
  arranged : Arranged index above? graph.relations branches
  arranged_within : ∀ branch ∈ allWithin branches, ∀ other, branch.index? = some other →
    Arranged other branch.side.near.index? graph.relations branch.branches
  queries : ∀ branch ∈ allWithin branches, ∀ other, branch.index? = some other →
    graph.queriesFor other = branch.clauses
  nodup : (indices branches).Nodup

variable {graph : Graph} {sentinel index : String} {above? : Option String}
  {branch : Branch} {branches : List Branch}

/-- A branch stands before those that branch off from it. -/
theorem within_eq (branch : Branch) : branch.within = branch :: allWithin branch.branches := by
  cases branch
  rfl

/-- A branch and what branches off from it belong to the branches. -/
theorem within_sublist (h : branch ∈ branches) : branch.within.Sublist (allWithin branches) := by
  induction branches with
  | nil => cases h
  | cons first rest ih =>
    rw [allWithin]
    rcases List.mem_cons.mp h with rfl | h
    · exact List.sublist_append_left _ _
    · exact (ih h).trans (List.sublist_append_right _ _)

/-- A branch belongs to the branches. -/
theorem mem_allWithin_of_mem (h : branch ∈ branches) : branch ∈ allWithin branches := by
  refine (within_sublist h).mem ?_
  rw [within_eq]
  exact List.mem_cons_self

/-- What branches off from a branch belongs to the branches. -/
theorem allWithin_branches_sublist (h : branch ∈ branches) :
    (allWithin branch.branches).Sublist (allWithin branches) := by
  refine .trans ?_ (within_sublist h)
  rw [within_eq]
  exact List.sublist_cons_self _ _

/-- The indices that one of several branches leads to are among theirs. -/
theorem indices_singleton_sublist (h : branch ∈ branches) :
    (indices [branch]).Sublist (indices branches) := by
  have hwithin : allWithin [branch] = branch.within := List.append_nil _
  rw [indices, hwithin]
  exact (within_sublist h).filterMap _

/-- Each of some branches that grow at an index grows there. -/
theorem growsAt_of_mem (h : AllGrowAt index branches) (hmem : branch ∈ branches) :
    branch.GrowsAt index := by
  induction branches with
  | nil => cases hmem
  | cons first rest ih =>
    rcases List.mem_cons.mp hmem with rfl | hmem
    · exact h.1
    · exact ih h.2 hmem

/-- What branches off from a planted branch is planted where it leads. -/
theorem Planted.inner (h : Planted graph index above? branches) (hmem : branch ∈ branches)
    {other : String} (hother : branch.index? = some other) :
    Planted graph other (some index) branch.branches where
  grow := by
    have hgrows := growsAt_of_mem h.grow hmem
    obtain ⟨near, far, negate, flipped, origin, clauses, inner⟩ := branch
    simp only [GrowsAt] at hgrows
    simp only [index?] at hother
    rw [hother] at hgrows
    exact hgrows.2
  arranged := by
    have hnear : branch.side.near.index? = some index := by
      have hgrows := growsAt_of_mem h.grow hmem
      cases branch
      exact hgrows.1
    rw [← hnear]
    exact h.arranged_within branch (mem_allWithin_of_mem hmem) other hother
  arranged_within inner hinner :=
    h.arranged_within inner ((allWithin_branches_sublist hmem).mem hinner)
  queries inner hinner := h.queries inner ((allWithin_branches_sublist hmem).mem hinner)
  nodup := h.nodup.sublist ((allWithin_branches_sublist hmem).filterMap _)

/-- The join of a branch is that of its relation, with the joins of what branches off. -/
theorem join_eq (sentinel : String) (hqueries : ∀ other, branch.index? = some other →
    graph.queriesFor other = branch.clauses) :
    branch.join sentinel =
      ((graph.ownJoin sentinel branch.side).attaching
        (Join.joinAttachments (joins sentinel branch.branches)), branch.edge.negate) := by
  obtain ⟨near, far, negate, flipped, origin, clauses, inner⟩ := branch
  have hnegate : (mk near far negate flipped origin clauses inner).edge.negate = negate := by
    cases flipped <;> rfl
  rw [hnegate, join, Hop.joinOver, side, branches]
  cases hfar : far.index? with
  | none =>
    have hempty : far.indices = [] := List.head?_eq_none_iff.mp hfar
    rw [Graph.ownJoin_of_index?_eq_none hfar]
    simp [Hop.ownJoin, hop, Join.bare, hempty, Join.attaching]
  | some other =>
    have hclauses : graph.queriesFor other = clauses := hqueries other hfar
    rw [Graph.ownJoin, hfar, Option.map_some, Option.getD_some, hclauses]
    rfl

/-- A branch leads to the index at its far side. -/
theorem far_index? (branch : Branch) : branch.side.far.index? = branch.index? := by
  cases branch
  rfl

/-- A branch is higher by one than what branches off from it. -/
theorem height_eq (branch : Branch) : branch.height = maxHeight branch.branches + 1 := by
  cases branch
  rfl

/-- Nothing branches off where there is no index. -/
theorem GrowsAt.branches_eq_nil (h : branch.GrowsAt index) (hnone : branch.index? = none) :
    branch.branches = [] := by
  obtain ⟨near, far, negate, flipped, origin, clauses, inner⟩ := branch
  simp only [index?] at hnone
  rw [GrowsAt, hnone] at h
  exact h.2

/-- What a walk becomes when it passes a branch. -/
def passed (sentinel : String) (walk : Walk) (branch : Branch) : Walk where
  visited := (indices [branch]).reverse ++ walk.visited
  entered := branch.index?.toList ++ walk.entered
  joins := walk.joins ++ [branch.join sentinel]

/-- A way onward that is limited finds the joins of what is planted where it leads. -/
def Scales (graph : Graph) (sentinel : String) (levels : Nat) (way : Graph.Onward) : Prop :=
  ∀ index above? branches visited, Planted graph index above? branches →
    (∀ other ∈ indices branches, other ∉ visited) → index ∈ visited →
    (∀ other, above? = some other → other ∈ visited) →
    Limited levels (maxHeight branches)
      ⟨(indices branches).reverse ++ visited, joins sentinel branches⟩ (way index visited).result

/-- A way onward, or none, leaves room for so many levels of joins. -/
def LeavesRoom (graph : Graph) (sentinel : String) (limit : Nat) : Option Graph.Onward → Prop
  | none => limit = 0
  | some way => ∃ levels, limit = levels + 1 ∧ Scales graph sentinel levels way

/-- What holds of a walk that has the relations of some branches still in front of it. -/
structure Ready (index : String) (above? : Option String) (rest : List Branch) (walk : Walk) :
    Prop where
  fresh : ∀ other ∈ indices rest, other ∉ walk.visited
  entered : ∀ other ∈ walk.entered, other ∈ walk.visited
  index : index ∈ walk.visited
  above : ∀ other, above? = some other → other ∈ walk.visited ∧ other ∉ walk.entered

/-- The indices of the first branch stand before those of the others. -/
theorem indices_append (first : Branch) (rest : List Branch) :
    indices (first :: rest) = indices [first] ++ indices rest := by
  rw [indices_cons, indices_cons first []]
  exact congrArg (· ++ indices rest) (List.append_nil _).symm

/-- The index that a branch leads to is one of its indices. -/
theorem mem_indices_singleton {other : String} (h : other ∈ branch.index?.toList) :
    other ∈ indices [branch] := by
  rw [indices_cons, List.append_assoc]
  exact List.mem_append_left _ h

/-- A walk that has passed a branch is ready for the others. -/
theorem Ready.passed {first : Branch} {rest : List Branch} {walk : Walk}
    (h : Ready index above? (first :: rest) walk) (hnodup : (indices (first :: rest)).Nodup)
    (sentinel : String) : Ready index above? rest (passed sentinel walk first) := by
  have hfresh := h.fresh
  rw [indices_append] at hnodup hfresh
  have hapart := (List.nodup_append.mp hnodup).2.2
  refine ⟨?_, ?_, List.mem_append_right _ h.index, ?_⟩
  · intro other hother hvisited
    rcases List.mem_append.mp hvisited with hinside | hvisited
    · exact hapart other (List.mem_reverse.mp hinside) other hother rfl
    · exact hfresh other (List.mem_append_right _ hother) hvisited
  · intro other hother
    rcases List.mem_append.mp hother with hinto | hother
    · exact List.mem_append_left _ (List.mem_reverse.mpr (mem_indices_singleton hinto))
    · exact List.mem_append_right _ (h.entered other hother)
  · intro other hother
    obtain ⟨hvisited, hnotEntered⟩ := h.above other hother
    refine ⟨List.mem_append_right _ hvisited, fun hinto => ?_⟩
    rcases List.mem_append.mp hinto with hinto | hinto
    · exact hfresh other (List.mem_append_left _ (mem_indices_singleton hinto)) hvisited
    · exact hnotEntered hinto

/-- Passing a branch takes as many levels as it is high. -/
theorem limited_pass {limit : Nat} {onward : Option Graph.Onward}
    (honward : LeavesRoom graph sentinel limit onward)
    (hplanted : Planted graph index above? branches) (hmem : branch ∈ branches)
    (hside : branch.edge.orient? index = some branch.side) {walk : Walk}
    (hfresh : ∀ other ∈ indices [branch], other ∉ walk.visited)
    (hentered : ∀ other ∈ walk.entered, other ∈ walk.visited) (hindex : index ∈ walk.visited) :
    Limited limit branch.height (passed sentinel walk branch)
      (graph.pass sentinel onward index walk branch.edge).result := by
  have hgrows := growsAt_of_mem hplanted.grow hmem
  have hjoin := join_eq sentinel (hplanted.queries branch (mem_allWithin_of_mem hmem))
  have hindices : indices [branch] = branch.index?.toList ++ indices branch.branches := by
    rw [indices_cons]
    exact List.append_nil _
  have hnew (other : String) (hfar : branch.side.far.index? = some other) :
      other ∉ walk.visited := by
    refine hfresh other ?_
    rw [hindices, ← far_index?, hfar]
    exact List.mem_cons_self
  cases onward with
  | none =>
    refine ⟨fun hle => ?_, fun _ => ⟨branch.edge.origin, ?_⟩⟩
    · rw [honward, height_eq] at hle
      omega
    · exact Graph.result_pass_tooDeep hside fun other hfar => .inr (hnew other hfar)
  | some way =>
    obtain ⟨levels, rfl, hway⟩ := honward
    rw [height_eq]
    cases hfar : branch.side.far.index? with
    | none =>
      have hnone : branch.index? = none := far_index? branch ▸ hfar
      have hbare : branch.branches = [] := hgrows.branches_eq_nil hnone
      have hnowhere : indices [branch] = [] := by
        rw [hindices, hnone, hbare]
        rfl
      rw [Graph.result_pass_dangling way hside hfar, hbare]
      refine ⟨fun _ => ?_, fun hlt => ?_⟩
      · simp [passed, hnowhere, hjoin, hnone, hbare, joins, Join.joinAttachments]
      · rw [maxHeight] at hlt
        omega
    | some other =>
      have hsome : branch.index? = some other := far_index? branch ▸ hfar
      have hinner := hplanted.inner hmem hsome
      have hnotEntered : other ∉ walk.entered := fun h => hnew other hfar (hentered other h)
      rw [hsome] at hindices
      have hnodup := hplanted.nodup.sublist (indices_singleton_sublist hmem)
      rw [hindices] at hnodup hfresh
      have hfreshInner : ∀ one ∈ indices branch.branches, one ∉ other :: walk.visited := by
        intro one hone
        refine List.not_mem_cons_of_ne_of_not_mem ?_ (hfresh one (List.mem_cons_of_mem _ hone))
        rintro rfl
        exact (List.nodup_cons.mp hnodup).1 hone
      have hlimited := hway other (some index) branch.branches (other :: walk.visited) hinner
        hfreshInner List.mem_cons_self
        fun above habove => List.mem_cons_of_mem _ (Option.some.inj habove ▸ hindex)
      have hpassed : passed sentinel walk branch =
          { visited := (indices branch.branches).reverse ++ other :: walk.visited
            entered := other :: walk.entered
            joins := walk.joins ++ [((graph.ownJoin sentinel branch.side).attaching
              (Join.joinAttachments (joins sentinel branch.branches)), branch.edge.negate)] } := by
        simp [passed, hindices, hsome, hjoin]
      rw [Graph.result_pass_onward way hside hfar hnotEntered (hnew other hfar), hpassed]
      exact (hlimited.map fun walked : Walked => ({
        visited := walked.visited
        entered := other :: walk.entered
        joins := walk.joins ++ [((graph.ownJoin sentinel branch.side).attaching
          (Join.joinAttachments walked.joins), branch.edge.negate)] } : Walk)).succ

/-- Passing relations one after the other takes as many levels as the highest branch. -/
theorem limited_foldlM {limit : Nat} {onward : Option Graph.Onward}
    (honward : LeavesRoom graph sentinel limit onward)
    (hplanted : Planted graph index above? branches) {relations : List Edge}
    {rest : List Branch} (harranged : Arranged index above? relations rest)
    (hrest : ∀ branch ∈ rest, branch ∈ branches) (hnodup : (indices rest).Nodup) (walk : Walk)
    (hready : Ready index above? rest walk) :
    ∃ entered, Limited limit (maxHeight rest)
      ⟨(indices rest).reverse ++ walk.visited, entered, walk.joins ++ joins sentinel rest⟩
      (relations.foldlM
        (fun walk edge => (graph.pass sentinel onward index walk edge).result) walk) := by
  induction harranged generalizing walk with
  | nil =>
    refine ⟨walk.entered, ?_⟩
    rw [joins, List.append_nil]
    exact .ok limit walk
  | apart hedge _ ih =>
    rw [List.foldlM_cons, Graph.result_pass_untouched onward hedge]
    exact ih hrest hnodup walk hready
  | above hedge hfar habove _ ih =>
    obtain ⟨hvisited, hnotEntered⟩ := hready.above _ habove
    rw [List.foldlM_cons, Graph.result_pass_skipped onward hedge hfar hnotEntered hvisited]
    exact ih hrest hnodup walk hready
  | @branch first _ rest hfirst _ ih =>
    have hsplit := indices_append first rest
    have hfresh : ∀ other ∈ indices [first], other ∉ walk.visited := by
      intro other hother
      refine hready.fresh other ?_
      rw [hsplit]
      exact List.mem_append_left _ hother
    have hpass := limited_pass honward hplanted (hrest first List.mem_cons_self) hfirst hfresh
      hready.entered hready.index
    have hnext := hready.passed hnodup sentinel
    rw [hsplit, List.nodup_append] at hnodup
    obtain ⟨entered, hlimited⟩ :=
      ih (fun branch hbranch => hrest branch (List.mem_cons_of_mem _ hbranch)) hnodup.2.1
        (passed sentinel walk first) hnext
    refine ⟨entered, ?_⟩
    rw [List.foldlM_cons, maxHeight]
    have hbind := hpass.bind (fun walk => List.foldlM
      (fun walk edge => (graph.pass sentinel onward index walk edge).result) walk _) hlimited
    simpa [passed, hsplit, joins] using hbind

/-- Scanning the relations of an index finds the joins of the branches planted there. -/
theorem limited_scan {limit : Nat} (onward : Option Graph.Onward)
    (honward : LeavesRoom graph sentinel limit onward) :
    Scales graph sentinel limit (graph.scan sentinel onward) := by
  intro index above? branches visited hplanted hfresh hindex habove
  rw [Graph.result_scan]
  have hready : Ready index above? branches ⟨visited, [], []⟩ :=
    ⟨hfresh, by simp, hindex, fun other hother => ⟨habove other hother, by simp⟩⟩
  obtain ⟨entered, hlimited⟩ := limited_foldlM honward hplanted hplanted.arranged
    (fun _ h => h) hplanted.nodup ⟨visited, [], []⟩ hready
  exact hlimited.map fun walk : Walk => (⟨walk.visited, walk.joins⟩ : Walked)

/-- **Walking up a tree.** A walk finds the joins of the branches planted where it starts. It is
refused when a branch is higher than the number of levels. -/
theorem scales_walkFrom (graph : Graph) (sentinel : String) (levels : Nat) :
    Scales graph sentinel levels (graph.walkFrom sentinel levels) := by
  induction levels with
  | zero => exact limited_scan none rfl
  | succ levels ih => exact limited_scan (some _) ⟨levels, rfl, ih⟩

end Branch

end Semijoin
