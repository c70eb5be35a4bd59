import Semijoin.Json.Draft

/-!
# Values that a text can stand for

A value that has been read is sound: the members of its objects are in order, each key once, and
its integers have machine size. Such a value has a draft in which everything stands as it is
written.
-/

namespace Semijoin

/-- An integer has machine size. Doubles have it anyway. -/
def Number.Sound : Number → Prop
  | .integer value => -(UInt64.size / 2 : Nat) ≤ value ∧ value < (UInt64.size : Nat)
  | .float _ => True

namespace Json

mutual

/-- The members of all objects are in order, and all integers have machine size. -/
def Sound : Json → Prop
  | .number value => value.Sound
  | .array items => ItemsSound items
  | .object members => KeysOrdered members ∧ MembersSound members
  | .null | .bool _ | .string _ => True

/-- The elements of an array are sound. -/
def ItemsSound : List Json → Prop
  | [] => True
  | item :: rest => item.Sound ∧ ItemsSound rest

/-- The values in an object are sound. -/
def MembersSound : List (String × Json) → Prop
  | [] => True
  | (_, value) :: rest => value.Sound ∧ MembersSound rest

end

/-- The elements of an array are sound one by one. -/
theorem itemsSound_iff {items : List Json} : ItemsSound items ↔ ∀ item ∈ items, item.Sound :=
  iff_forall_mem trivial fun _ _ => .rfl

/-- The values of an object are sound one by one. -/
theorem membersSound_iff {members : List (String × Json)} :
    MembersSound members ↔ ∀ member ∈ members, member.2.Sound :=
  iff_forall_mem trivial fun _ _ => .rfl

mutual

/-- The doubles in a value. -/
def floats : Json → List UInt64
  | .number (.float bits) => [bits]
  | .array items => itemsFloats items
  | .object members => membersFloats members
  | .null | .bool _ | .string _ | .number (.integer _) => []

/-- The doubles in the elements of an array. -/
def itemsFloats : List Json → List UInt64
  | [] => []
  | item :: rest => item.floats ++ itemsFloats rest

/-- The doubles in the values of an object. -/
def membersFloats : List (String × Json) → List UInt64
  | [] => []
  | (_, value) :: rest => value.floats ++ membersFloats rest

end

mutual

/-- How many arrays and objects are open at once in the text of a value. -/
def nesting : Json → Nat
  | .array items => itemsNesting items + 1
  | .object members => membersNesting members + 1
  | .null | .bool _ | .number _ | .string _ => 0

/-- The deepest nesting in the elements of an array. -/
def itemsNesting : List Json → Nat
  | [] => 0
  | item :: rest => max item.nesting (itemsNesting rest)

/-- The deepest nesting in the values of an object. -/
def membersNesting : List (String × Json) → Nat
  | [] => 0
  | (_, value) :: rest => max value.nesting (membersNesting rest)

end

mutual

/-- A value taken apart. -/
def draft : Json → Draft
  | .null => .scalar .null
  | .bool value => .scalar (.bool value)
  | .number value => .scalar (.number value)
  | .string text => .scalar (.string text)
  | .array items => .array (itemsDraft items)
  | .object members => .object (membersDraft members)

/-- The elements of an array taken apart. -/
def itemsDraft : List Json → List Draft
  | [] => []
  | item :: rest => item.draft :: itemsDraft rest

/-- The members of an object taken apart. -/
def membersDraft : List (String × Json) → List (Draft.Key × Draft)
  | [] => []
  | (key, value) :: rest => (.ok key, value.draft) :: membersDraft rest

end

/-- A member whose key comes after all others goes to the end. -/
theorem insertMember_of_forall_lt {α : Type} {key : String} (value : α)
    {members : List (String × α)} (h : ∀ member ∈ members, member.1 < key) :
    insertMember key value members = members ++ [(key, value)] := by
  induction members with
  | nil => rfl
  | cons member rest ih =>
    obtain ⟨first, held⟩ := member
    have hfirst : first < key := h (first, held) List.mem_cons_self
    have hnot : ¬ key < first := fun hlt => String.lt_irrefl _ (String.lt_trans hlt hfirst)
    have hne : key ≠ first := by
      rintro rfl
      exact String.lt_irrefl _ hfirst
    rw [insertMember, if_neg hnot, if_neg hne,
      ih fun member hmember => h member (List.mem_cons_of_mem _ hmember)]
    rfl

/-- Members that are in order stay where they are. -/
theorem sortMembers_of_ordered {α : Type} {members : List (String × α)}
    (h : KeysOrdered members) : sortMembers members = members := by
  have hadd (sorted rest : List (String × α)) (horder : KeysOrdered (sorted ++ rest)) :
      rest.foldl (fun sorted member => insertMember member.1 member.2 sorted) sorted =
        sorted ++ rest := by
    induction rest generalizing sorted with
    | nil => exact (List.append_nil sorted).symm
    | cons member rest ih =>
      obtain ⟨key, value⟩ := member
      have hlast : ∀ other ∈ sorted, other.1 < key := fun other hother =>
        (List.pairwise_append.mp horder).2.2 other hother (key, value) List.mem_cons_self
      change rest.foldl _ (insertMember key value sorted) = _
      rw [insertMember_of_forall_lt value hlast]
      have hsplit : sorted ++ (key, value) :: rest = sorted ++ [(key, value)] ++ rest := by simp
      rw [hsplit] at horder ⊢
      exact ih _ horder
  exact hadd [] members h

mutual

/-- The draft of a sound value has this value. -/
theorem toJson_draft : (value : Json) → value.Sound → value.draft.toJson = .ok value
  | .null, _ | .bool _, _ | .number _, _ | .string _, _ => rfl
  | .array items, h => by
    rw [draft, Draft.toJson, itemsToJson_itemsDraft items h]
    rfl
  | .object members, h => by
    rw [draft, Draft.toJson, membersToJson_membersDraft members h.2]
    change Except.ok (Json.object (sortMembers members)) = _
    rw [sortMembers_of_ordered h.1]

/-- The drafts of sound elements have these elements as their values. -/
theorem itemsToJson_itemsDraft : (items : List Json) → ItemsSound items →
    Draft.itemsToJson (itemsDraft items) = .ok items
  | [], _ => rfl
  | item :: rest, h => by
    rw [itemsDraft, Draft.itemsToJson, toJson_draft item h.1, itemsToJson_itemsDraft rest h.2]
    rfl

/-- The drafts of sound members have these members as their values. -/
theorem membersToJson_membersDraft : (members : List (String × Json)) → MembersSound members →
    Draft.membersToJson (membersDraft members) = .ok members
  | [], _ => rfl
  | (key, value) :: rest, h => by
    rw [membersDraft, Draft.membersToJson, toJson_draft value h.1,
      membersToJson_membersDraft rest h.2]
    rfl

end

end Json

end Semijoin
