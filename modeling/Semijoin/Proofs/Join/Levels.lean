import Semijoin.Proofs.Join.Soundness
import Semijoin.Proofs.Specification.Carrying

/-!
# How deep the joins in a value nest

The joins in a value are found by their key, whether a client wrote them or they were compiled. The
clause of a join nests them as deep as the join itself is, on top of what its clauses bring along.
-/

namespace Semijoin

namespace Json

mutual

/-- How many joins of a value are nested in one another. -/
def joinLevels : Json → Nat
  | .array items => itemsJoinLevels items
  | .object members => membersJoinLevels members
  | _ => 0

/-- How many joins are nested in one another in some elements. -/
def itemsJoinLevels : List Json → Nat
  | [] => 0
  | item :: rest => max item.joinLevels (itemsJoinLevels rest)

/-- How many joins are nested in one another in some members, which are joins themselves under the
key of joins. -/
def membersJoinLevels : List (String × Json) → Nat
  | [] => 0
  | (key, value) :: rest =>
    max (if key = "filterjoin" then value.bodyJoinLevels + 1 else value.joinLevels)
      (membersJoinLevels rest)

/-- How many joins are nested in one another in what is under the key of joins. The key there is
that of a field, whatever it is. -/
def bodyJoinLevels : Json → Nat
  | .array items => itemsJoinLevels items
  | .object members => fieldsJoinLevels members
  | _ => 0

/-- How many joins are nested in one another in the values of some fields. -/
def fieldsJoinLevels : List (String × Json) → Nat
  | [] => 0
  | (_, value) :: rest => max value.joinLevels (fieldsJoinLevels rest)

end

/-- The joins in no value nest deeper than a bound. -/
def JoinsWithin (bound : Nat) (value : Json) : Prop := value.joinLevels ≤ bound

/-- Elements are within a bound one by one. -/
theorem itemsJoinLevels_le_iff {items : List Json} {bound : Nat} :
    itemsJoinLevels items ≤ bound ↔ ∀ item ∈ items, item.JoinsWithin bound := by
  induction items with
  | nil => simp [itemsJoinLevels]
  | cons item rest ih => rw [itemsJoinLevels, Nat.max_le, ih, List.forall_mem_cons, JoinsWithin]

/-- Values of fields are within a bound one by one. -/
theorem fieldsJoinLevels_le_iff {members : List (String × Json)} {bound : Nat} :
    fieldsJoinLevels members ≤ bound ↔ ∀ member ∈ members, member.2.JoinsWithin bound := by
  induction members with
  | nil => simp [fieldsJoinLevels]
  | cons member rest ih =>
    rw [fieldsJoinLevels, Nat.max_le, ih, List.forall_mem_cons, JoinsWithin]

/-- An object that is no join is within a bound if its values are. -/
theorem joinsWithin_object {members : List (String × Json)} {bound : Nat}
    (hkeys : "filterjoin" ∉ members.map Prod.fst)
    (h : ∀ member ∈ members, member.2.JoinsWithin bound) :
    (Json.object members).JoinsWithin bound := by
  have hmembers : membersJoinLevels members = fieldsJoinLevels members := by
    clear h
    induction members with
    | nil => rfl
    | cons member rest ih =>
      rw [List.map_cons, List.mem_cons, not_or] at hkeys
      rw [membersJoinLevels, fieldsJoinLevels, if_neg (Ne.symm hkeys.1), ih hkeys.2]
  rw [JoinsWithin, joinLevels, hmembers]
  exact fieldsJoinLevels_le_iff.mpr h

mutual

/-- A value has at most one level more as it stands than under the key of joins. -/
theorem joinLevels_le_bodyJoinLevels : (value : Json) →
    value.bodyJoinLevels ≤ value.joinLevels ∧ value.joinLevels ≤ value.bodyJoinLevels + 1
  | .array _ => ⟨Nat.le_refl _, Nat.le_succ _⟩
  | .object members => membersJoinLevels_le_fieldsJoinLevels members
  | .null | .bool _ | .number _ | .string _ => ⟨Nat.le_refl _, Nat.le_succ _⟩

/-- Members have at most one level more than the same values as those of fields. -/
theorem membersJoinLevels_le_fieldsJoinLevels : (members : List (String × Json)) →
    fieldsJoinLevels members ≤ membersJoinLevels members ∧
      membersJoinLevels members ≤ fieldsJoinLevels members + 1
  | [] => ⟨Nat.le_refl _, Nat.le_succ _⟩
  | (key, value) :: rest => by
    have hvalue := joinLevels_le_bodyJoinLevels value
    have hrest := membersJoinLevels_le_fieldsJoinLevels rest
    rw [membersJoinLevels, fieldsJoinLevels]
    split <;> omega

end

/-- Being within a bound passes from a value to its parts. -/
theorem passesDown_joinsWithin (bound : Nat) :
    PassesDown (JoinsWithin bound) (JoinsWithin bound) where
  null := Nat.zero_le _
  item h := itemsJoinLevels_le_iff.mp h
  element h := itemsJoinLevels_le_iff.mp h
  member {members} h := by
    have hfields := (membersJoinLevels_le_fieldsJoinLevels members).1
    exact fieldsJoinLevels_le_iff.mp (Nat.le_trans hfields h)

/-- Texts hold no joins. -/
theorem joinsWithin_ofTexts (bound : Nat) (texts : List String) :
    (ofTexts texts).JoinsWithin bound := by
  refine itemsJoinLevels_le_iff.mpr fun item hitem => ?_
  obtain ⟨text, -, rfl⟩ := List.mem_map.mp hitem
  exact Nat.zero_le _

/-- A boolean query is no join. -/
theorem joinsWithin_boolean {bound : Nat} {occurrence : String} (hkey : occurrence ≠ "filterjoin")
    {clauses : List Json} (h : ∀ clause ∈ clauses, clause.JoinsWithin bound) :
    (boolean occurrence clauses).JoinsWithin bound := by
  have hclauses : (Json.array clauses).JoinsWithin bound := itemsJoinLevels_le_iff.mpr h
  refine joinsWithin_object (by simp) (List.forall_mem_singleton.mpr ?_)
  exact joinsWithin_object (by simpa using hkey.symm) (List.forall_mem_singleton.mpr hclauses)

end Json

namespace Join

open Json

/-- The deepest of some joins. -/
def maxDepth (joins : List (Join × Bool)) : Nat := attachedDepth (joinAttachments joins)

/-- Of two lists of attachments the deeper one decides. -/
theorem attachedDepth_append (first second : List Attachment) :
    attachedDepth (first ++ second) = max (attachedDepth first) (attachedDepth second) := by
  induction first with
  | nil => simp [attachedDepth]
  | cons attachment rest ih =>
    cases attachment with
    | clause clause negate => exact ih
    | join join negate => rw [List.cons_append, attachedDepth, ih, attachedDepth, Nat.max_assoc]

/-- Clauses are no joins. -/
theorem attachedDepth_clauseAttachments (clauses : List Clause) :
    attachedDepth (clauseAttachments clauses) = 0 := by
  induction clauses with
  | nil => rfl
  | cons clause rest ih => exact ih

/-- Of two lists of joins the deeper one decides. -/
theorem maxDepth_append (first second : List (Join × Bool)) :
    maxDepth (first ++ second) = max (maxDepth first) (maxDepth second) := by
  rw [maxDepth, joinAttachments, List.map_append]
  exact attachedDepth_append _ _

/-- A single join is the deepest. -/
theorem maxDepth_singleton (join : Join) (negate : Bool) : maxDepth [(join, negate)] = join.depth :=
  Nat.max_zero _

/-- A join is no deeper than the deepest. -/
theorem depth_le_maxDepth {joins : List (Join × Bool)} {join : Join × Bool} (h : join ∈ joins) :
    join.1.depth ≤ maxDepth joins := by
  induction joins with
  | nil => cases h
  | cons first rest ih =>
    change _ ≤ max first.1.depth (maxDepth rest)
    rcases List.mem_cons.mp h with rfl | h
    · exact Nat.le_max_left _ _
    · exact Nat.le_trans (ih h) (Nat.le_max_right _ _)

/-- A join of a target with clauses is one level deeper than the joins attached to it, if the target
names an index. -/
theorem depth_attaching {sentinel source : String} {endpoint : Endpoint}
    (h : endpoint.indices ≠ []) (clauses : List Clause) (joins : List (Join × Bool)) :
    (((bare sentinel source endpoint).attaching (clauseAttachments clauses)).attaching
      (joinAttachments joins)).depth = maxDepth joins + 1 := by
  have hindices : endpoint.indices.isEmpty = false := by simpa using h
  simp only [bare, hindices, Bool.false_eq_true, if_false, attaching, depth, List.nil_append,
    attachedDepth_append, attachedDepth_clauseAttachments, Nat.zero_max, maxDepth]

/-- A join of a target without an index is not deeper than itself. -/
theorem depth_attaching_of_indices_eq_nil {sentinel source : String} {endpoint : Endpoint}
    (h : endpoint.indices = []) (first second : List Attachment) :
    (((bare sentinel source endpoint).attaching first).attaching second).depth = 1 := by
  have hindices : endpoint.indices.isEmpty = true := by simp [h]
  simp only [bare, hindices, if_true, attaching, depth]

/-- The query of a join is as deep as the restrictions in it. -/
theorem joinsWithin_query {bound : Nat} {scored required excluded : List Json} (anyNegated : Bool)
    (hscored : ∀ clause ∈ scored, clause.JoinsWithin bound)
    (hrequired : ∀ clause ∈ required, clause.JoinsWithin bound)
    (hexcluded : ∀ clause ∈ excluded, clause.JoinsWithin bound) :
    (query scored required excluded anyNegated).JoinsWithin bound := by
  have hmust : (Json.array (matchAll :: scored)).JoinsWithin bound :=
    itemsJoinLevels_le_iff.mpr (List.forall_mem_cons.mpr ⟨Nat.zero_le _, hscored⟩)
  have hrequired : (Json.array required).JoinsWithin bound := itemsJoinLevels_le_iff.mpr hrequired
  have hexcluded : (Json.array excluded).JoinsWithin bound := itemsJoinLevels_le_iff.mpr hexcluded
  have hfilter : (Json.object (("must", .array required) ::
      if anyNegated then [("must_not", .array excluded)] else [])).JoinsWithin bound := by
    cases anyNegated with
    | false => exact joinsWithin_object (by simp) (List.forall_mem_singleton.mpr hrequired)
    | true =>
      exact joinsWithin_object (by simp)
        (List.forall_mem_cons.mpr ⟨hrequired, List.forall_mem_singleton.mpr hexcluded⟩)
  refine joinsWithin_object (by simp) (List.forall_mem_singleton.mpr ?_)
  refine joinsWithin_object (by simp) (List.forall_mem_cons.mpr ⟨?_, ?_⟩)
  · exact joinsWithin_object (by simp) (List.forall_mem_singleton.mpr hfilter)
  · exact List.forall_mem_singleton.mpr hmust

/-- A join is one level deeper than its body. -/
theorem joinsWithin_wrap {bound : Nat} (source : String) {body : Json}
    (h : body.JoinsWithin bound) : (wrap source body).JoinsWithin (bound + 1) := by
  simpa [JoinsWithin, wrap, joinLevels, membersJoinLevels, bodyJoinLevels, fieldsJoinLevels] using h

/-- The body of a join is as deep as its query. -/
theorem joinsWithin_toJson_target {bound : Nat} (target : Target) {query : Json}
    (h : query.JoinsWithin bound) : (target.toJson query).JoinsWithin bound := by
  change (Json.object (target.toJson query).members).JoinsWithin bound
  refine joinsWithin_object ?_ ?_
  · exact fun hmem => absurd ((target.keys_toJson query).subset hmem) (by decide)
  · exact target.forall_members_toJson h (fun _ => Nat.zero_le _) (joinsWithin_ofTexts bound)
      fun _ => Nat.zero_le _

mutual

/-- The clause of a join nests joins as deep as the join is, on top of those that its clauses bring
along. -/
theorem joinsWithin_toJson {bound : Nat} : (join : Join) → join.Carries (JoinsWithin bound) →
    join.toJson.JoinsWithin (join.depth + bound)
  | .resolved source target attached, h => by
    have hscored : ∀ clause ∈ Attachment.scored attached,
        clause.JoinsWithin (attachedDepth attached + bound) :=
      fun clause hclause => Nat.le_trans (Attachment.AllCarry.scored h clause hclause)
        (Nat.le_add_left _ _)
    have hfilters := joinsWithin_filtersJson attached h
    have hquery := joinsWithin_query (Attachment.anyNegated attached) hscored (hfilters false)
      (hfilters true)
    rw [toJson, depth, Nat.add_right_comm]
    exact joinsWithin_wrap source (joinsWithin_toJson_target target hquery)
  | .unresolved source path sentinel, _ => by
    have hquery : (boolean "must_not" [matchAll]).JoinsWithin bound :=
      joinsWithin_boolean (by decide) (List.forall_mem_singleton.mpr (Nat.zero_le _))
    rw [toJson, depth, Nat.add_comm]
    refine joinsWithin_wrap source (joinsWithin_object (by simp) ?_)
    exact List.forall_mem_cons.mpr ⟨joinsWithin_ofTexts _ _,
      List.forall_mem_cons.mpr ⟨Nat.zero_le _, List.forall_mem_singleton.mpr hquery⟩⟩

/-- The restrictions that filter without scoring nest joins as deep as the attached ones are. -/
theorem joinsWithin_filtersJson {bound : Nat} : (attached : List Attachment) →
    Attachment.AllCarry (JoinsWithin bound) attached → ∀ negated,
    ∀ clause ∈ filtersJson negated attached, clause.JoinsWithin (attachedDepth attached + bound)
  | [], _, _ => List.forall_mem_nil _
  | .clause (.filter body) negate :: rest, h, negated => by
    have hrest := joinsWithin_filtersJson rest h.2 negated
    have hbody : body.JoinsWithin (attachedDepth rest + bound) :=
      Nat.le_trans h.1 (Nat.le_add_left _ _)
    rw [filtersJson, attachedDepth]
    split
    · exact List.forall_mem_cons.mpr ⟨hbody, hrest⟩
    · exact hrest
  | .clause (.scored body) negate :: rest, h, negated => joinsWithin_filtersJson rest h.2 negated
  | .join join negate :: rest, h, negated => by
    have hjoin : join.toJson.JoinsWithin (max join.depth (attachedDepth rest) + bound) :=
      Nat.le_trans (joinsWithin_toJson join h.1)
        (Nat.add_le_add_right (Nat.le_max_left _ _) bound)
    have hrest : ∀ clause ∈ filtersJson negated rest,
        clause.JoinsWithin (max join.depth (attachedDepth rest) + bound) :=
      fun clause hclause => Nat.le_trans (joinsWithin_filtersJson rest h.2 negated clause hclause)
        (Nat.add_le_add_right (Nat.le_max_right _ _) bound)
    rw [filtersJson, attachedDepth]
    split
    · exact List.forall_mem_cons.mpr ⟨hjoin, hrest⟩
    · exact hrest

end

/-- The clauses of some joins nest joins as deep as the deepest of them, on top of those that their
clauses bring along. -/
theorem joinsWithin_clauses {bound : Nat} {joins : List (Join × Bool)}
    (h : ∀ join ∈ joins, join.1.Carries (JoinsWithin bound)) :
    ∀ clause ∈ clauses joins, clause.JoinsWithin (maxDepth joins + bound) := by
  refine clauses_of_toJson (fun clause hclause => ?_) fun join hjoin => ?_
  · exact joinsWithin_boolean (by decide) (List.forall_mem_singleton.mpr hclause)
  · exact Nat.le_trans (joinsWithin_toJson join.1 (h join hjoin))
      (Nat.add_le_add_right (depth_le_maxDepth hjoin) bound)

end Join

end Semijoin
