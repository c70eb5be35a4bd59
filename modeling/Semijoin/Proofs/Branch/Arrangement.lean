import Semijoin.Proofs.Branch.Walk

/-!
# The relations of a tree in any order

A join graph may hold the relations of a tree in any order. At each index it then sees the
relation that leads there and those of the branches there, and nothing else, because every index
has its place in the tree once.
-/

namespace Semijoin

namespace Branch

/-- The index at which a branch starts. -/
def near? (branch : Branch) : Option String := branch.side.near.index?

/-- A join graph holds a tree: the relations of the branches in any order, those at one index as
they branch off there, and the clauses of their indices. -/
structure Holds (graph : Graph) (branches : List Branch) : Prop where
  grow : AllGrowAt graph.focus branches
  distinct : (graph.focus :: indices branches).Nodup
  relations : graph.relations.Perm ((allWithin branches).map edge)
  order : (branches.map edge).Sublist graph.relations
  order_within : ∀ branch ∈ allWithin branches,
    (branch.branches.map edge).Sublist graph.relations
  queries : ∀ branch ∈ allWithin branches, ∀ index, branch.index? = some index →
    graph.queriesFor index = branch.clauses
  queries_focus : graph.queries.lookup graph.focus = none

mutual

/-- What holds of branches if it holds of those beyond the first and of those beside it. -/
theorem forest_induction_within {motive : List Branch → Prop} (nil : motive [])
    (cons : ∀ first rest, motive first.branches → motive rest → motive (first :: rest)) :
    (branch : Branch) → motive branch.branches
  | mk _ _ _ _ _ _ branches => forest_induction nil cons branches

/-- What holds of branches if it holds of those beyond the first and of those beside it. -/
theorem forest_induction {motive : List Branch → Prop} (nil : motive [])
    (cons : ∀ first rest, motive first.branches → motive rest → motive (first :: rest)) :
    (branches : List Branch) → motive branches
  | [] => nil
  | first :: rest =>
    cons first rest (forest_induction_within nil cons first) (forest_induction nil cons rest)

end

variable {index : String} {branch : Branch} {branches : List Branch}

/-- What it means that a branch grows at an index, without taking the branch apart. -/
theorem growsAt_iff : branch.GrowsAt index ↔ branch.near? = some index ∧
    match branch.index? with
    | none => branch.branches = []
    | some other => AllGrowAt other branch.branches := by
  cases branch
  exact Iff.rfl

/-- The first branch stands before all others and before what branches off from it. -/
theorem allWithin_cons (first : Branch) (rest : List Branch) :
    allWithin (first :: rest) = first :: allWithin first.branches ++ allWithin rest := by
  rw [allWithin, within_eq]

/-- The index of a branch is one of the indices. -/
theorem mem_indices (hmem : branch ∈ allWithin branches) {other : String}
    (hother : branch.index? = some other) : other ∈ indices branches :=
  List.mem_filterMap.mpr ⟨branch, hmem, hother⟩

/-- Where all indices differ, those of the first branch differ from the others. -/
theorem nodup_split {first : Branch} {rest : List Branch}
    (h : (index :: indices (first :: rest)).Nodup) :
    (index :: indices rest).Nodup ∧ index ∉ indices first.branches ∧
      (∀ other ∈ indices first.branches, other ∉ indices rest) ∧
      ∀ other, first.index? = some other →
        other ≠ index ∧ other ∉ indices rest ∧ (other :: indices first.branches).Nodup := by
  rw [indices_cons, List.append_assoc, List.nodup_cons, List.nodup_append, List.nodup_append] at h
  simp only [List.mem_append, Option.mem_toList] at h
  simp only [List.nodup_cons]
  grind

/-- Every branch starts at an index of the tree, and does not come back to it. -/
theorem near?_of_mem (hgrow : AllGrowAt index branches)
    (hdistinct : (index :: indices branches).Nodup) (hmem : branch ∈ allWithin branches) :
    ∃ near, branch.near? = some near ∧ near ∈ index :: indices branches ∧
      branch.index? ≠ some near ∧ near ∉ indices branch.branches := by
  induction branches using forest_induction generalizing index with
  | nil => cases hmem
  | cons first rest ihInside ihRest =>
    obtain ⟨hfirst, hrest⟩ := hgrow
    obtain ⟨hnear, hinside⟩ := growsAt_iff.mp hfirst
    obtain ⟨hdistinctRest, hnotInside, -, hfar⟩ := nodup_split hdistinct
    rw [allWithin_cons, List.mem_append, List.mem_cons] at hmem
    rcases hmem with (rfl | hmem) | hmem
    · refine ⟨index, hnear, List.mem_cons_self, ?_, hnotInside⟩
      intro hsame
      exact (hfar index hsame).1 rfl
    · cases hother : first.index? with
      | none =>
        rw [hother] at hinside
        rw [hinside] at hmem
        cases hmem
      | some other =>
        rw [hother] at hinside
        obtain ⟨near, hnear', hin, hne, hnot⟩ := ihInside hinside (hfar other hother).2.2 hmem
        refine ⟨near, hnear', ?_, hne, hnot⟩
        rw [indices_cons, hother]
        simp only [List.mem_cons, Option.toList_some, List.mem_append] at hin ⊢
        grind
    · obtain ⟨near, hnear', hin, hne, hnot⟩ := ihRest hrest hdistinctRest hmem
      refine ⟨near, hnear', ?_, hne, hnot⟩
      rw [indices_cons]
      simp only [List.mem_cons, List.mem_append] at hin ⊢
      grind

/-- At an index that is not in the tree no branch starts. -/
theorem filter_near?_eq_nil (hgrow : AllGrowAt index branches)
    (hdistinct : (index :: indices branches).Nodup) {other : String}
    (hother : other ∉ index :: indices branches) :
    (allWithin branches).filter (fun branch => decide (branch.near? = some other)) = [] := by
  rw [List.filter_eq_nil_iff]
  intro branch hmem hnear
  obtain ⟨near, hnear', hin, -⟩ := near?_of_mem hgrow hdistinct hmem
  rw [of_decide_eq_true hnear] at hnear'
  cases hnear'
  exact hother hin

/-- Beyond a branch nothing starts where the branch starts. -/
theorem filter_near?_inside {first : Branch} {rest : List Branch}
    (hgrow : AllGrowAt index (first :: rest))
    (hdistinct : (index :: indices (first :: rest)).Nodup) {other : String}
    (hother : other ∉ indices first.branches) (hnot : first.index? ≠ some other) :
    (allWithin first.branches).filter (fun branch => decide (branch.near? = some other)) = [] := by
  obtain ⟨-, hinside⟩ := growsAt_iff.mp hgrow.1
  obtain ⟨-, -, -, hfar⟩ := nodup_split hdistinct
  cases hindex : first.index? with
  | none =>
    rw [hindex] at hinside
    rw [hinside]
    rfl
  | some far =>
    rw [hindex] at hinside
    refine filter_near?_eq_nil hinside (hfar far hindex).2.2 ?_
    refine List.not_mem_cons_of_ne_of_not_mem ?_ hother
    rintro rfl
    exact hnot hindex

/-- The branches that start at the root of the tree are those at its root. -/
theorem filter_near?_root (hgrow : AllGrowAt index branches)
    (hdistinct : (index :: indices branches).Nodup) :
    (allWithin branches).filter (fun branch => decide (branch.near? = some index)) = branches := by
  induction branches with
  | nil => rfl
  | cons first rest ih =>
    obtain ⟨hnear, -⟩ := growsAt_iff.mp hgrow.1
    obtain ⟨hdistinctRest, hnotInside, -, hfar⟩ := nodup_split hdistinct
    have hnot : first.index? ≠ some index := fun hsame => (hfar index hsame).1 rfl
    rw [allWithin_cons, List.cons_append, List.filter_cons_of_pos (by simpa using hnear),
      List.filter_append, filter_near?_inside hgrow hdistinct hnotInside hnot,
      ih hgrow.2 hdistinctRest]
    rfl

/-- The branches that start where another leads to are those that branch off there. -/
theorem filter_near?_within (hgrow : AllGrowAt index branches)
    (hdistinct : (index :: indices branches).Nodup) (hmem : branch ∈ allWithin branches)
    {other : String} (hother : branch.index? = some other) :
    (allWithin branches).filter (fun branch => decide (branch.near? = some other)) =
      branch.branches := by
  induction branches using forest_induction generalizing index with
  | nil => cases hmem
  | cons first rest ihInside ihRest =>
    obtain ⟨hnear, hinside⟩ := growsAt_iff.mp hgrow.1
    obtain ⟨hdistinctRest, hnotInside, hapart, hfar⟩ := nodup_split hdistinct
    have hne : other ≠ index := by
      rintro rfl
      exact (List.nodup_cons.mp hdistinct).1 (mem_indices hmem hother)
    have hfirst : first.near? ≠ some other := by
      rw [hnear]
      exact fun hsame => hne (Option.some.inj hsame).symm
    rw [allWithin_cons, List.mem_append, List.mem_cons] at hmem
    rw [allWithin_cons, List.cons_append, List.filter_cons_of_neg (by simpa using hfirst),
      List.filter_append]
    rcases hmem with (rfl | hmem) | hmem
    · obtain ⟨-, hbeside, hdistinctInside⟩ := hfar other hother
      rw [hother] at hinside
      rw [filter_near?_root hinside hdistinctInside,
        filter_near?_eq_nil hgrow.2 hdistinctRest
          (List.not_mem_cons_of_ne_of_not_mem hne hbeside), List.append_nil]
    · have hin := mem_indices hmem hother
      cases hindex : first.index? with
      | none =>
        rw [hindex] at hinside
        rw [hinside] at hmem
        cases hmem
      | some far =>
        rw [hindex] at hinside
        rw [ihInside hinside (hfar far hindex).2.2 hmem,
          filter_near?_eq_nil hgrow.2 hdistinctRest
            (List.not_mem_cons_of_ne_of_not_mem hne (hapart other hin)), List.append_nil]
    · have hin := mem_indices hmem hother
      have hnot : first.index? ≠ some other := fun hsame => (hfar other hsame).2.1 hin
      rw [filter_near?_inside hgrow hdistinct (fun h => hapart other h hin) hnot,
        ihRest hgrow.2 hdistinctRest hmem, List.nil_append]

/-- The relation of a branch is seen from its two ends only. -/
theorem orient?_edge {near : String} (hnear : branch.near? = some near)
    (hne : branch.index? ≠ some near) (index : String) :
    branch.edge.orient? index =
      if index = near then some branch.side
      else if branch.index? = some index then some ⟨branch.side.far, branch.side.near⟩
      else none := by
  obtain ⟨nearEnd, far, negate, flipped, origin, clauses, inner⟩ := branch
  simp only [near?, side, index?] at hnear hne ⊢
  cases flipped <;> simp only [edge, Edge.orient?] <;> grind

/-- The relation leads on from an index, and not back to the one above it. -/
def leadsOn (index : String) (above? : Option String) (edge : Edge) : Bool :=
  match edge.orient? index with
  | none => false
  | some side => above?.isNone || decide (side.far.index? ≠ above?)

/-- Relations are arranged when those that lead on are those of the branches in order. -/
theorem arranged_of_filter {above? : Option String} {relations : List Edge}
    (h : relations.filter (leadsOn index above?) = branches.map edge)
    (hside : ∀ branch ∈ branches, branch.edge.orient? index = some branch.side) :
    Arranged index above? relations branches := by
  induction relations generalizing branches with
  | nil =>
    rw [List.map_eq_nil_iff.mp h.symm]
    exact .nil
  | cons first rest ih =>
    cases horient : first.orient? index with
    | none =>
      have hnot : leadsOn index above? first = false := by rw [leadsOn, horient]
      rw [List.filter_cons_of_neg (by simp [hnot])] at h
      exact .apart horient (ih h hside)
    | some side =>
      by_cases hleads : leadsOn index above? first = true
      · rw [List.filter_cons_of_pos hleads] at h
        cases branches with
        | nil => cases h
        | cons branch others =>
          rw [List.map_cons, List.cons.injEq] at h
          obtain ⟨rfl, hrest⟩ := h
          exact .branch (hside branch List.mem_cons_self)
            (ih hrest fun other hother => hside other (List.mem_cons_of_mem _ hother))
      · rw [List.filter_cons_of_neg hleads] at h
        rw [leadsOn, horient] at hleads
        cases above? with
        | none => exact absurd rfl hleads
        | some other =>
          have hfar : side.far.index? = some other := by simpa using hleads
          exact .above horient hfar rfl (ih h hside)

/-- Relations in any order are arranged at an index, if those that lead on from there are those of
its branches, and these come in order. -/
theorem arranged_of_perm {above? : Option String} {relations : List Edge} {all : List Branch}
    (hperm : relations.Perm (all.map edge)) (horder : (branches.map edge).Sublist relations)
    (hleads : ∀ branch ∈ all,
      leadsOn index above? branch.edge = decide (branch.near? = some index))
    (hbranches : all.filter (fun branch => decide (branch.near? = some index)) = branches)
    (hside : ∀ branch ∈ branches, branch.edge.orient? index = some branch.side) :
    Arranged index above? relations branches := by
  refine arranged_of_filter ?_ hside
  have hall : (all.map edge).filter (leadsOn index above?) = branches.map edge := by
    rw [List.filter_map, ← hbranches]
    congr 1
    exact List.filter_congr hleads
  have hfound := hperm.filter (leadsOn index above?)
  rw [hall] at hfound
  have hkept : (branches.map edge).filter (leadsOn index above?) = branches.map edge := by
    rw [← hall, List.filter_filter]
    simp only [Bool.and_self]
  have hsublist := horder.filter (leadsOn index above?)
  rw [hkept] at hsublist
  exact (hsublist.eq_of_length hfound.length_eq.symm).symm

/-- At the focus the relations of a tree are arranged. -/
theorem Holds.arranged {graph : Graph} (h : Holds graph branches) :
    Arranged graph.focus none graph.relations branches := by
  have hside : ∀ branch ∈ branches, branch.edge.orient? graph.focus = some branch.side := by
    intro branch hmem
    obtain ⟨hnear, -⟩ := growsAt_iff.mp (growsAt_of_mem h.grow hmem)
    obtain ⟨near, hnear', -, hne, -⟩ := near?_of_mem h.grow h.distinct (mem_allWithin_of_mem hmem)
    rw [hnear] at hnear'
    cases hnear'
    rw [orient?_edge hnear hne, if_pos rfl]
  refine arranged_of_perm h.relations h.order ?_ (filter_near?_root h.grow h.distinct) hside
  intro branch hmem
  obtain ⟨near, hnear, -, hne, -⟩ := near?_of_mem h.grow h.distinct hmem
  have hnot : branch.index? ≠ some graph.focus := by
    intro hsame
    exact (List.nodup_cons.mp h.distinct).1 (mem_indices hmem hsame)
  rw [leadsOn, orient?_edge hnear hne, hnear, if_neg hnot]
  by_cases heq : graph.focus = near
  · simp [heq]
  · simp [heq, Ne.symm heq]

/-- Only one branch leads to an index. -/
theorem eq_of_index? {all : List Branch} (hdistinct : (all.filterMap Branch.index?).Nodup)
    {one other : Branch} (hone : one ∈ all) (hother : other ∈ all)
    (honeIndex : one.index? = some index) (hotherIndex : other.index? = some index) :
    one = other := by
  induction all with
  | nil => cases hone
  | cons first rest ih =>
    have hin (branch : Branch) (hmem : branch ∈ rest) (hindex : branch.index? = some index) :
        index ∈ rest.filterMap Branch.index? := List.mem_filterMap.mpr ⟨branch, hmem, hindex⟩
    rw [List.filterMap_cons] at hdistinct
    rcases List.mem_cons.mp hone with rfl | honeRest <;>
      rcases List.mem_cons.mp hother with rfl | hotherRest
    · rfl
    · rw [honeIndex] at hdistinct
      exact absurd (hin other hotherRest hotherIndex) (List.nodup_cons.mp hdistinct).1
    · rw [hotherIndex] at hdistinct
      exact absurd (hin one honeRest honeIndex) (List.nodup_cons.mp hdistinct).1
    · refine ih ?_ honeRest hotherRest
      cases hfirst : first.index? with
      | none => rwa [hfirst] at hdistinct
      | some far =>
        rw [hfirst] at hdistinct
        exact (List.nodup_cons.mp hdistinct).2

/-- Where a branch leads the relations of a tree are arranged. -/
theorem Holds.arranged_within {graph : Graph} (h : Holds graph branches)
    (hmem : branch ∈ allWithin branches) (hindex : branch.index? = some index) :
    Arranged index branch.near? graph.relations branch.branches := by
  have hinner := filter_near?_within h.grow h.distinct hmem hindex
  obtain ⟨above, habove, -, -, hnotBeyond⟩ := near?_of_mem h.grow h.distinct hmem
  have hbeyond (other : Branch) : other ∈ branch.branches ↔
      other ∈ allWithin branches ∧ other.near? = some index := by
    rw [← hinner, List.mem_filter, decide_eq_true_eq]
  refine arranged_of_perm h.relations (h.order_within branch hmem) ?_ hinner ?_
  · intro other hother
    obtain ⟨near, hnear, -, hne, -⟩ := near?_of_mem h.grow h.distinct hother
    rw [leadsOn, orient?_edge hnear hne, hnear, habove]
    by_cases heq : index = near
    · have hnotAbove : other.side.far.index? ≠ some above := by
        rw [far_index?]
        intro hsame
        have hmem' := mem_allWithin_of_mem ((hbeyond other).mpr ⟨hother, heq ▸ hnear⟩)
        exact hnotBeyond (mem_indices hmem' hsame)
      simp [heq, hnotAbove]
    · by_cases hfar : other.index? = some index
      · have hsame := eq_of_index? (List.nodup_cons.mp h.distinct).2 hother hmem hfar hindex
        have hback : other.side.near.index? = some above := by
          rw [hsame]
          exact habove
        simp [heq, hfar, hback, Ne.symm heq]
      · simp [heq, hfar, Ne.symm heq]
  · intro other hother
    obtain ⟨hmem', hnear⟩ := (hbeyond other).mp hother
    obtain ⟨near, hnear', -, hne, -⟩ := near?_of_mem h.grow h.distinct hmem'
    rw [hnear] at hnear'
    cases hnear'
    rw [orient?_edge hnear hne, if_pos rfl]

/-- A tree is planted at the focus of a graph that holds it. -/
theorem Holds.planted {graph : Graph} (h : Holds graph branches) :
    Planted graph graph.focus none branches where
  grow := h.grow
  arranged := h.arranged
  arranged_within _ hmem _ hindex := h.arranged_within hmem hindex
  queries := h.queries
  nodup := (List.nodup_cons.mp h.distinct).2

end Branch

end Semijoin
