import Semijoin.Proofs.Chain.Ascent
import Semijoin.Proofs.Chain.Refusal

/-!
# Groups of a single branch

A group of one branch stands for the steps of the branch. What follows the group may as well follow
these steps, so a chain with such a group compiles as the chain without it.
-/

namespace Semijoin.Chain

variable {branch : Chain} {hops : List Hop}

/-- The steps of a chain in order may be followed by further relations. -/
theorem InOrder.append (h : branch.InOrder) (hne : hops ≠ [])
    (hlast : (hops.getLast hne).filtered.queries = []) (origin : Pointer) :
    InOrder ⟨origin, branch.steps ++ hops.map .relation⟩ := by
  have happended (others : List Hop) :
      ((others ++ hops).getLast (List.append_ne_nil_of_right_ne_nil others hne)).filtered.queries =
        [] := by
    rwa [List.getLast_append_of_ne_nil _ hne]
  cases h with
  | @relations _ others _ _ =>
    rw [← List.map_append]
    exact .relations _ (happended others)
  | @grouped _ group branches others _ _ hbranches hall =>
    rw [List.cons_append, ← List.map_append]
    exact .grouped _ (happended others) hbranches hall

/-- A group of one chain in order may be followed by relations. -/
theorem InOrder.inGroup (h : branch.InOrder) (hne : hops ≠ [])
    (hlast : (hops.getLast hne).filtered.queries = []) (origin group : Pointer) :
    InOrder ⟨origin, .group group [branch] :: hops.map .relation⟩ :=
  .grouped hne hlast (List.cons_ne_nil branch []) (List.forall_mem_singleton.mpr h)

/-- A single branch gives its own tier. -/
theorem tiers_singleton (branch : Chain) (sentinel : String) :
    tiers sentinel [branch] = branch.tier sentinel := by
  have hnone : tiers sentinel [] = pure ⟨[], 0⟩ := rfl
  rw [tiers, hnone]
  simp only [pure_bind, List.append_nil, Nat.max_zero]
  exact bind_pure _

/-- Relations climb from the tier of a chain whether it stands in a group or not. -/
theorem InOrder.tier_inGroup (h : branch.InOrder) (hne : hops ≠ [])
    (hlast : (hops.getLast hne).filtered.queries = []) (origin group : Pointer)
    (sentinel : String) :
    Chain.tier sentinel ⟨origin, .group group [branch] :: hops.map .relation⟩ =
      Chain.tier sentinel ⟨origin, branch.steps ++ hops.map .relation⟩ := by
  have hbranches : branches ⟨origin, branch.steps ++ hops.map .relation⟩ = branch.branches := by
    obtain ⟨first, rest, hsteps⟩ := h.exists_steps
    rw [branches, branches, hsteps]
    rfl
  have hrelations : Chain.hops ⟨origin, branch.steps ++ hops.map .relation⟩ =
      branch.hops ++ hops := by
    rw [Chain.hops, List.filterMap_append, filterMap_hop?_relations]
    rfl
  have hgroup : Chain.hops ⟨origin, .group group [branch] :: hops.map .relation⟩ = hops :=
    filterMap_hop?_relations hops
  have hlowest := h.tier_eq sentinel
  rw [(h.inGroup hne hlast origin group).tier_eq, (h.append hne hlast origin).tier_eq, hbranches,
    hrelations, hgroup]
  change tiers sentinel [branch] >>= _ = _
  rw [tiers_singleton, hlowest, bind_assoc]
  exact bind_congr fun tier => (List.foldlM_append ..).symm

/-- **A group of one branch adds nothing.** A chain that begins with a group of one branch, which
passes the check itself, compiles as the chain that begins with the steps of this branch: to the
same clauses with the same events, but for the number of steps in the last of them, or it is refused
as too deep at the same step with the same events. -/
theorem compile_inGroup (hbranch : branch.check = .ok ()) (hne : hops ≠ [])
    (hlast : (hops.getLast hne).filtered.queries = []) (origin group : Pointer)
    (sentinel : String) :
    (∃ events clauses depth joins,
      Chain.compile ⟨origin, .group group [branch] :: hops.map .relation⟩ sentinel =
        ⟨events ++ [.chainCompiled origin (hops.length + 1) depth joins], .ok clauses⟩ ∧
      Chain.compile ⟨origin, branch.steps ++ hops.map .relation⟩ sentinel =
        ⟨events ++ [.chainCompiled origin (branch.steps.length + hops.length) depth joins],
          .ok clauses⟩) ∨
    (∃ events place,
      Chain.compile ⟨origin, .group group [branch] :: hops.map .relation⟩ sentinel =
        ⟨events, .error (.malformed .tooDeep place)⟩ ∧
      Chain.compile ⟨origin, branch.steps ++ hops.map .relation⟩ sentinel =
        ⟨events, .error (.malformed .tooDeep place)⟩) := by
  have h := inOrder_of_check branch hbranch
  have hgrouped := h.inGroup hne hlast origin group
  have hflat := h.append hne hlast origin
  have hlimited := limited_tier sentinel _ hflat.check
  rw [hgrouped.compile_eq, hflat.compile_eq, h.tier_inGroup hne hlast origin group]
  generalize Chain.tier sentinel ⟨origin, branch.steps ++ hops.map .relation⟩ = climbed at hlimited
  rcases Nat.lt_or_ge maxJoinDepth
    (levels ⟨origin, branch.steps ++ hops.map .relation⟩) with hdeep | hshallow
  · obtain ⟨place, hplace⟩ := hlimited.beyond hdeep
    rw [Traced.bind_of_error hplace, Traced.bind_of_error hplace]
    exact .inr ⟨_, _, rfl, rfl⟩
  · have hok := hlimited.within hshallow
    rw [Traced.bind_of_ok hok, Traced.bind_of_ok hok, List.length_cons, List.length_append,
      List.length_map]
    exact .inl ⟨_, _, _, _, rfl, rfl⟩

/-- A step that may follow a chain of documents of the index `b`. -/
def stepUp : Hop := ⟨.ofIndex "b" "id", .ofIndex "a" "to_b", true, .root⟩

/-- A chain that begins with a group itself may stand in a group or not: four joins nest either
way. -/
theorem compile_inGroup_forked : ∃ events clauses,
    Chain.compile ⟨.root, [.group .root [forked], .relation stepUp]⟩ ".filterjoin" =
      ⟨events ++ [.chainCompiled .root 2 4 1], .ok clauses⟩ ∧
    Chain.compile ⟨.root, forked.steps ++ [.relation stepUp]⟩ ".filterjoin" =
      ⟨events ++ [.chainCompiled .root 3 4 1], .ok clauses⟩ := by
  have hcheck : forked.check = .ok () := rfl
  rcases compile_inGroup hcheck (List.cons_ne_nil stepUp []) rfl .root .root ".filterjoin" with
    ⟨events, clauses, depth, joins, hnested, hflat⟩ | ⟨events, place, hnested, -⟩
  · have hlast : (Chain.compile ⟨.root, [.group .root [forked], .relation stepUp]⟩
        ".filterjoin").events.getLast? = some (.chainCompiled .root 2 4 1) := rfl
    change Chain.compile ⟨.root, [.group .root [forked], .relation stepUp]⟩ ".filterjoin" = _
      at hnested
    rw [hnested, List.getLast?_concat] at hlast
    cases hlast
    exact ⟨events, clauses, hnested, hflat⟩
  · cases congrArg Traced.result hnested

end Semijoin.Chain
