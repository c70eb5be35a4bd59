import Semijoin.Proofs.Join.Carrying
import Semijoin.Proofs.Json.Sound

/-!
# Joins as sound values

A join becomes a value whose objects have their keys in order and whose numbers have machine size,
as soon as the clauses attached to it are such values. This holds of every property that passes from
the parts of such values to the values. Every join opens at least eight arrays and objects around
the joins nested in it.
-/

namespace Semijoin

namespace Json

/-- A property of values passes from elements to arrays and from members, if their keys are in
order, to objects. Texts and limits of machine size have it. -/
structure PassesUp (property : Json → Prop) : Prop where
  string (text : String) : property (.string text)
  cap (cap : UInt64) : property (.number (.integer cap.toNat))
  array {items : List Json} : (∀ item ∈ items, property item) → property (.array items)
  object {members : List (String × Json)} : KeysOrdered members →
    (∀ member ∈ members, property member.2) → property (.object members)

/-- Whether members are in order is a matter of their keys. -/
theorem keysOrdered_iff_keys {α : Type} {members : List (String × α)} (keys : List String)
    (hkeys : members.map Prod.fst = keys) : KeysOrdered members ↔ keys.Pairwise (· < ·) := by
  rw [← hkeys, List.pairwise_map]
  rfl

/-- Soundness passes to arrays and objects. -/
theorem passesUp_sound : PassesUp Sound where
  string _ := trivial
  cap cap := by
    have hcap : cap.toNat < UInt64.size := UInt64.toNat_lt_size cap
    constructor <;> omega
  array h := itemsSound_iff.mpr h
  object hkeys h := ⟨hkeys, membersSound_iff.mpr h⟩

/-- Order passes to arrays and objects. -/
theorem passesUp_isOrdered : PassesUp IsOrdered where
  string _ := trivial
  cap _ := trivial
  array h := itemsOrdered_iff.mpr h
  object hkeys h := ⟨hkeys, membersOrdered_iff.mpr h⟩

namespace PassesUp

variable {property : Json → Prop} (hup : PassesUp property)
include hup

/-- The property passes to an object of one member. -/
theorem object_singleton {key : String} {value : Json} (h : property value) :
    property (.object [(key, value)]) :=
  hup.object (List.pairwise_singleton _ _) (List.forall_mem_singleton.mpr h)

/-- A list of texts has the property as an array. -/
theorem ofTexts (texts : List String) : property (.ofTexts texts) := by
  refine hup.array fun item hitem => ?_
  obtain ⟨text, -, rfl⟩ := List.mem_map.mp hitem
  exact hup.string text

/-- The query that every document matches has the property. -/
theorem matchAll : property Semijoin.matchAll :=
  hup.object_singleton (hup.object .nil (List.forall_mem_nil _))

/-- The property passes from clauses to a boolean query. -/
theorem boolean (occurrence : String) {clauses : List Json}
    (h : ∀ clause ∈ clauses, property clause) : property (.boolean occurrence clauses) :=
  hup.object_singleton (hup.object_singleton (hup.array h))

/-- The property passes from a query to the body of a join. -/
theorem toJson_target (target : Target) {query : Json} (hquery : property query) :
    property (target.toJson query) := by
  have hkeys : KeysOrdered (target.toJson query).members := by
    refine (keysOrdered_iff_keys _ rfl).mpr (List.Pairwise.sublist (target.keys_toJson query) ?_)
    decide
  exact hup.object hkeys
    (target.forall_members_toJson hquery hup.string hup.ofTexts hup.cap)

/-- The property passes from a body to the join under a field. -/
theorem wrap (source : String) {body : Json} (h : property body) :
    property (Join.wrap source body) :=
  hup.object_singleton (hup.object_singleton h)

/-- The property passes from the clauses in the query of a join to the query. -/
theorem query {scored required excluded : List Json} (anyNegated : Bool)
    (hscored : ∀ clause ∈ scored, property clause)
    (hrequired : ∀ clause ∈ required, property clause)
    (hexcluded : ∀ clause ∈ excluded, property clause) :
    property (Join.query scored required excluded anyNegated) := by
  have hfilter : property (.object (("must", .array required) ::
      if anyNegated then [("must_not", .array excluded)] else [])) := by
    cases anyNegated with
    | false => exact hup.object_singleton (hup.array hrequired)
    | true =>
      refine hup.object ((keysOrdered_iff_keys ["must", "must_not"] rfl).mpr (by decide)) ?_
      exact List.forall_mem_cons.mpr
        ⟨hup.array hrequired, List.forall_mem_singleton.mpr (hup.array hexcluded)⟩
  have hmust : property (.array (Semijoin.matchAll :: scored)) :=
    hup.array (List.forall_mem_cons.mpr ⟨hup.matchAll, hscored⟩)
  refine hup.object_singleton (hup.object
    ((keysOrdered_iff_keys ["filter", "must"] rfl).mpr (by decide)) ?_)
  exact List.forall_mem_cons.mpr
    ⟨hup.object_singleton hfilter, List.forall_mem_singleton.mpr hmust⟩

/-- The property passes through every join. -/
theorem passes : Join.Passes property fun _ => True where
  resolved source target attached _ hscored hfilters := by
    rw [Join.toJson]
    exact hup.wrap source
      (hup.toJson_target target (hup.query _ hscored (hfilters false) (hfilters true)))
  unresolved source path sentinel _ := by
    rw [Join.toJson]
    have hquery := hup.boolean "must_not" (List.forall_mem_singleton.mpr hup.matchAll)
    refine hup.wrap source (hup.object
      ((keysOrdered_iff_keys ["indices", "path", "query"] rfl).mpr (by decide)) ?_)
    exact List.forall_mem_cons.mpr ⟨hup.ofTexts _,
      List.forall_mem_cons.mpr ⟨hup.string _, List.forall_mem_singleton.mpr hquery⟩⟩

/-- The property passes from what joins carry to their clauses. -/
theorem clauses {joins : List (Join × Bool)} (h : ∀ join ∈ joins, join.1.Carries property) :
    ∀ clause ∈ Join.clauses joins, property clause := by
  have hnegated (clause : Json) (hclause : property clause) :
      property (.boolean "must_not" [clause]) :=
    hup.boolean "must_not" (List.forall_mem_singleton.mpr hclause)
  refine Join.clauses_of_toJson hnegated fun join hjoin => ?_
  exact hup.passes.toJson join.1 (h join hjoin) fun _ _ => trivial

end PassesUp

end Json

namespace Join

open Json

mutual

/-- How many joins are nested in one another, the outermost counted. -/
def depth : Join → Nat
  | .resolved _ _ attached => attachedDepth attached + 1
  | .unresolved .. => 1

/-- The deepest nesting of the joins among some attachments. -/
def attachedDepth : List Attachment → Nat
  | [] => 0
  | .clause .. :: rest => attachedDepth rest
  | .join join _ :: rest => max join.depth (attachedDepth rest)

end

/-- The query of a join opens five arrays and objects around the restrictions that are not
negated. -/
theorem le_nesting_query (scored required excluded : List Json) (anyNegated : Bool) :
    itemsNesting required + 5 ≤ (query scored required excluded anyNegated).nesting := by
  simp only [query, nesting, membersNesting]
  omega

/-- The query of a join opens five arrays and objects around the negated restrictions. -/
theorem le_nesting_query_negated (scored required excluded : List Json) :
    itemsNesting excluded + 5 ≤ (query scored required excluded true).nesting := by
  simp only [query, nesting, membersNesting, if_true]
  omega

/-- A value in an object nests no deeper than the deepest of them. -/
theorem nesting_le_membersNesting {members : List (String × Json)} (key : String) {value : Json}
    (h : (key, value) ∈ members) : value.nesting ≤ membersNesting members := by
  induction members with
  | nil => cases h
  | cons member rest ih =>
    rw [membersNesting]
    rcases List.mem_cons.mp h with rfl | h
    · exact Nat.le_max_left _ _
    · have hrest := ih h
      omega

/-- The body of a join opens one object around its query. -/
theorem le_nesting_toJson_target (target : Target) (query : Json) :
    query.nesting + 1 ≤ (target.toJson query).nesting := by
  rw [Target.toJson, nesting]
  refine Nat.add_le_add_right (nesting_le_membersNesting "query" ?_) 1
  simp only [List.mem_append, List.mem_cons]
  exact .inl (.inl (.inr (.inr (.inl trivial))))

/-- A join opens two objects around its body. -/
theorem nesting_wrap (source : String) (body : Json) :
    (wrap source body).nesting = body.nesting + 2 := by
  simp [wrap, nesting, membersNesting]

/-- Where nothing is negated, there are no negated restrictions. -/
theorem filtersJson_true_eq_nil {attached : List Attachment}
    (h : Attachment.anyNegated attached = false) : filtersJson true attached = [] := by
  induction attached with
  | nil => rfl
  | cons attachment rest ih =>
    cases attachment with
    | clause clause negate =>
      cases clause with
      | scored body => exact ih h
      | filter body =>
        cases negate with
        | true => cases h
        | false => exact ih h
    | join join negate =>
      cases negate with
      | true => cases h
      | false => exact ih h

mutual

/-- Every join opens at least eight arrays and objects around the joins nested in it. -/
theorem eight_mul_depth_le_nesting : (join : Join) → 8 * join.depth ≤ join.toJson.nesting
  | .resolved source target attached => by
    have hattached := eight_mul_attachedDepth_le attached
    rw [toJson, nesting_wrap, depth]
    have hbody := le_nesting_toJson_target target
      (query (Attachment.scored attached) (filtersJson false attached) (filtersJson true attached)
        (Attachment.anyNegated attached))
    have hrequired := le_nesting_query (Attachment.scored attached) (filtersJson false attached)
      (filtersJson true attached) (Attachment.anyNegated attached)
    cases hnegated : Attachment.anyNegated attached with
    | false =>
      rw [hnegated] at hbody hrequired
      rw [filtersJson_true_eq_nil hnegated] at hattached hbody hrequired ⊢
      rw [itemsNesting] at hattached
      omega
    | true =>
      rw [hnegated] at hbody hrequired
      have hexcluded := le_nesting_query_negated (Attachment.scored attached)
        (filtersJson false attached) (filtersJson true attached)
      omega
  | .unresolved source path sentinel => by
    have hquery : (boolean "must_not" [matchAll]).nesting = 5 := by decide
    rw [toJson, nesting_wrap, depth]
    simp only [nesting, membersNesting, hquery]
    omega

/-- The restrictions among some attachments nest at least eight times as deep as the joins. -/
theorem eight_mul_attachedDepth_le : (attached : List Attachment) →
    8 * attachedDepth attached ≤
      max (itemsNesting (filtersJson false attached)) (itemsNesting (filtersJson true attached))
  | [] => Nat.zero_le _
  | .clause (.filter body) negate :: rest => by
    have hrest := eight_mul_attachedDepth_le rest
    rw [attachedDepth]
    cases negate with
    | true =>
      simp only [filtersJson, if_true, Bool.true_eq_false, if_false, itemsNesting]
      omega
    | false =>
      simp only [filtersJson, if_true, Bool.false_eq_true, if_false, itemsNesting]
      omega
  | .clause (.scored body) negate :: rest => eight_mul_attachedDepth_le rest
  | .join join negate :: rest => by
    have hjoin := eight_mul_depth_le_nesting join
    have hrest := eight_mul_attachedDepth_le rest
    rw [attachedDepth]
    cases negate with
    | true =>
      simp only [filtersJson, if_true, Bool.true_eq_false, if_false, itemsNesting]
      omega
    | false =>
      simp only [filtersJson, if_true, Bool.false_eq_true, if_false, itemsNesting]
      omega

end

end Join

end Semijoin
