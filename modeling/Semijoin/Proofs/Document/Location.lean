import Semijoin.Document.Host

/-!
# The hosts of a document

Location fails on an object that has a label beside another key. In a document without such
objects it lists the hosts in preorder. The list is told here by recursion on the document, and
it does not depend on where the document stands.
-/

namespace Semijoin

namespace Json

/-- The label and the specification of an object whose only key is a label. -/
def hosted? : List (String × Json) → Option (Label × Json)
  | [(key, value)] => (Label.ofKey? key).map fun label => (label, value)
  | _ => none

mutual

/-- No object has a label beside another key. -/
def Uncrowded : Json → Prop
  | .object members =>
    (∀ label ∈ Label.all, (members.lookup label.key).isSome → members.length = 1) ∧
      MembersUncrowded members
  | .array items => ItemsUncrowded items
  | _ => True

/-- No object in the members of an object has a label beside another key. -/
def MembersUncrowded : List (String × Json) → Prop
  | [] => True
  | (_, value) :: rest => value.Uncrowded ∧ MembersUncrowded rest

/-- No object in the elements of an array has a label beside another key. -/
def ItemsUncrowded : List Json → Prop
  | [] => True
  | item :: rest => item.Uncrowded ∧ ItemsUncrowded rest

end

mutual

/-- Crowded objects are looked for along the tree. -/
def decUncrowded : (value : Json) → Decidable value.Uncrowded
  | .object members =>
    have := decMembersUncrowded members
    inferInstanceAs (Decidable
      ((∀ label ∈ Label.all, (members.lookup label.key).isSome → members.length = 1) ∧
        MembersUncrowded members))
  | .array items => decItemsUncrowded items
  | .null | .bool _ | .number _ | .string _ => isTrue trivial

/-- Crowded objects in the members of an object. -/
def decMembersUncrowded : (members : List (String × Json)) → Decidable (MembersUncrowded members)
  | [] => isTrue trivial
  | (_, value) :: rest =>
    have := decUncrowded value
    have := decMembersUncrowded rest
    inferInstanceAs (Decidable (value.Uncrowded ∧ MembersUncrowded rest))

/-- Crowded objects in the elements of an array. -/
def decItemsUncrowded : (items : List Json) → Decidable (ItemsUncrowded items)
  | [] => isTrue trivial
  | item :: rest =>
    have := decUncrowded item
    have := decItemsUncrowded rest
    inferInstanceAs (Decidable (item.Uncrowded ∧ ItemsUncrowded rest))

end

instance (value : Json) : Decidable value.Uncrowded := decUncrowded value

/-- The elements of an array are looked at one by one. -/
theorem itemsUncrowded_iff {items : List Json} :
    ItemsUncrowded items ↔ ∀ item ∈ items, item.Uncrowded :=
  iff_forall_mem trivial fun _ _ => .rfl

/-- The values in an object are looked at one by one. -/
theorem membersUncrowded_iff {members : List (String × Json)} :
    MembersUncrowded members ↔ ∀ member ∈ members, member.2.Uncrowded :=
  iff_forall_mem trivial fun _ _ => .rfl

/-- The key of a label is found under the label. -/
@[simp] theorem ofKey?_key (label : Label) : Label.ofKey? label.key = some label := by
  cases label <;> decide

/-- A key that has a label is the key of that label. -/
theorem key_of_ofKey? {key : String} {label : Label} (h : Label.ofKey? key = some label) :
    key = label.key := by
  unfold Label.ofKey? at h
  have hfound := List.find?_some h
  exact (of_decide_eq_true hfound).symm

/-- An object holds a specification exactly when its only key is a label. -/
theorem hosted?_eq_some_iff {members : List (String × Json)} {label : Label} {value : Json} :
    hosted? members = some (label, value) ↔ members = [(label.key, value)] := by
  constructor
  · intro h
    unfold hosted? at h
    split at h
    · rename_i key inner
      obtain ⟨found, hfound, heq⟩ := Option.map_eq_some_iff.mp h
      cases heq
      rw [key_of_ofKey? hfound]
    · cases h
  · rintro rfl
    simp [hosted?]

end Json

namespace Host

open Json

/-- The host that an object at a place is, if it is one. -/
def here (place : Pointer) (members : List (String × Json)) : List Host :=
  match hosted? members with
  | some (label, _) => [⟨label, place⟩]
  | none => []

mutual

/-- The hosts in a value that stands at a place. -/
def allIn (place : Pointer) : Json → List Host
  | .object members => here place members ++ allInMembers place members
  | .array items => allInItems place 0 items
  | _ => []

/-- The hosts in the members of an object. -/
def allInMembers (place : Pointer) : List (String × Json) → List Host
  | [] => []
  | (key, value) :: rest => allIn (place.key key) value ++ allInMembers place rest

/-- The hosts in the elements of an array, from some position on. -/
def allInItems (place : Pointer) : (position : Nat) → List Json → List Host
  | _, [] => []
  | position, item :: rest =>
    allIn (place.index position) item ++ allInItems place (position + 1) rest

end

/-- A host seen from further outside. -/
def under (base : Pointer) (host : Host) : Host := { host with place := base ++ host.place }

/-- The labels of an object are those that it has as keys. -/
theorem atObject_eq {members : List (String × Json)}
    (h : ∀ label ∈ Label.all, (members.lookup label.key).isSome → members.length = 1)
    (place : Pointer) : atObject Label.all place members = .ok (here place members) := by
  match members with
  | [] => rfl
  | [(key, value)] =>
    have hdistinct : Label.joinSet.key ≠ Label.joinSequence.key := by decide
    by_cases hset : key = Label.joinSet.key
    · subst hset
      rfl
    · by_cases hsequence : key = Label.joinSequence.key
      · subst hsequence
        rfl
      · have hnone : hosted? [(key, value)] = none := by
          cases hhosted : hosted? [(key, value)] with
          | none => rfl
          | some found =>
            have hkey := hosted?_eq_some_iff.mp
              (show hosted? _ = some (found.1, found.2) from hhosted)
            cases hlabel : found.1 <;> simp_all
        simp only [here, hnone, atObject, Label.all]
        simp [List.lookup_cons, beq_false_of_ne (Ne.symm hset),
          beq_false_of_ne (Ne.symm hsequence)]
        rfl
  | first :: second :: rest =>
    have hempty : (Label.all.filter fun label =>
        ((first :: second :: rest).lookup label.key).isSome) = [] := by
      refine List.filter_eq_nil_iff.mpr fun label hlabel hfound => ?_
      have := h label hlabel hfound
      simp at this
    rw [atObject, hempty]
    rfl

/-- An object with a label beside another key is a fault. -/
theorem atObject_of_crowded {members : List (String × Json)} {label : Label}
    (hlabel : label ∈ Label.all) (hfound : (members.lookup label.key).isSome)
    (hlength : members.length ≠ 1) (place : Pointer) :
    ∃ label, atObject Label.all place members = .error (.crowdedHost label place) := by
  unfold atObject
  have hmem : label ∈ Label.all.filter fun label => (members.lookup label.key).isSome :=
    List.mem_filter.mpr ⟨hlabel, hfound⟩
  cases hlabels : Label.all.filter fun label => (members.lookup label.key).isSome with
  | nil => rw [hlabels] at hmem; cases hmem
  | cons first rest =>
    refine ⟨first, ?_⟩
    rw [List.mapM_cons, if_neg hlength]
    rfl

mutual

/-- Location lists the hosts of a value without crowded objects. -/
theorem inValue_eq (place : Pointer) (value : Json) (h : value.Uncrowded) :
    inValue Label.all place value = .ok (allIn place value) := by
  cases value with
  | object members =>
    obtain ⟨hhere, hinside⟩ := h
    rw [inValue, atObject_eq hhere, inMembers_eq place members hinside]
    rfl
  | array items => exact inItems_eq place 0 items h
  | _ => rfl

/-- The hosts in the members of an object without crowded objects. -/
theorem inMembers_eq (place : Pointer) (members : List (String × Json))
    (h : MembersUncrowded members) :
    inMembers Label.all place members = .ok (allInMembers place members) := by
  match members with
  | [] => rfl
  | (key, value) :: rest =>
    obtain ⟨hvalue, hrest⟩ := h
    rw [inMembers, inValue_eq (place.key key) value hvalue, inMembers_eq place rest hrest]
    rfl

/-- The hosts in the elements of an array without crowded objects. -/
theorem inItems_eq (place : Pointer) (position : Nat) (items : List Json)
    (h : ItemsUncrowded items) :
    inItems Label.all place position items = .ok (allInItems place position items) := by
  cases items with
  | nil => rfl
  | cons item rest =>
    obtain ⟨hitem, hrest⟩ := h
    rw [inItems, inValue_eq (place.index position) item hitem,
      inItems_eq place (position + 1) rest hrest]
    rfl

end

mutual

/-- Location fails on a value with a crowded object. -/
theorem inValue_of_crowded (place : Pointer) (value : Json) (h : ¬ value.Uncrowded) :
    ∃ label at', inValue Label.all place value = .error (.crowdedHost label at') := by
  cases value with
  | object members =>
    rw [Uncrowded, Classical.not_and_iff_not_or_not] at h
    by_cases hhere : ∀ label ∈ Label.all, (members.lookup label.key).isSome → members.length = 1
    · obtain ⟨label, at', hfault⟩ := inMembers_of_crowded place members
        (h.resolve_left (not_not_intro hhere))
      exact ⟨label, at', by rw [inValue, atObject_eq hhere, hfault]; rfl⟩
    · simp only [Classical.not_forall] at hhere
      obtain ⟨label, hlabel, hfound, hlength⟩ := hhere
      obtain ⟨first, hfault⟩ := atObject_of_crowded hlabel hfound hlength place
      exact ⟨first, place, by rw [inValue, hfault]; rfl⟩
  | array items => exact inItems_of_crowded place 0 items h
  | _ => exact absurd trivial h

/-- A crowded object among the members of an object is a fault. -/
theorem inMembers_of_crowded (place : Pointer) (members : List (String × Json))
    (h : ¬ MembersUncrowded members) :
    ∃ label at', inMembers Label.all place members = .error (.crowdedHost label at') := by
  match members with
  | [] => exact absurd trivial h
  | (key, value) :: rest =>
    rw [MembersUncrowded, Classical.not_and_iff_not_or_not] at h
    by_cases hvalue : value.Uncrowded
    · obtain ⟨label, at', hfault⟩ := inMembers_of_crowded place rest
        (h.resolve_left (not_not_intro hvalue))
      exact ⟨label, at', by rw [inMembers, inValue_eq _ value hvalue, hfault]; rfl⟩
    · obtain ⟨label, at', hfault⟩ := inValue_of_crowded (place.key key) value hvalue
      exact ⟨label, at', by rw [inMembers, hfault]; rfl⟩

/-- A crowded object among the elements of an array is a fault. -/
theorem inItems_of_crowded (place : Pointer) (position : Nat) (items : List Json)
    (h : ¬ ItemsUncrowded items) :
    ∃ label at', inItems Label.all place position items = .error (.crowdedHost label at') := by
  cases items with
  | nil => exact absurd trivial h
  | cons item rest =>
    rw [ItemsUncrowded, Classical.not_and_iff_not_or_not] at h
    by_cases hitem : item.Uncrowded
    · obtain ⟨label, at', hfault⟩ := inItems_of_crowded place (position + 1) rest
        (h.resolve_left (not_not_intro hitem))
      exact ⟨label, at', by rw [inItems, inValue_eq _ item hitem, hfault]; rfl⟩
    · obtain ⟨label, at', hfault⟩ := inValue_of_crowded (place.index position) item hitem
      exact ⟨label, at', by rw [inItems, hfault]; rfl⟩

end

mutual

/-- Hosts are found at the same places wherever the value stands. -/
theorem allIn_append (base place : Pointer) (value : Json) :
    allIn (base ++ place) value = (allIn place value).map (under base) := by
  cases value with
  | object members =>
    have hhere : here (base ++ place) members = (here place members).map (under base) := by
      unfold here
      split <;> rfl
    rw [allIn, allIn, List.map_append, hhere, allInMembers_append base place members]
  | array items => exact allInItems_append base place 0 items
  | _ => rfl

/-- The hosts in members are the same from further outside. -/
theorem allInMembers_append (base place : Pointer) (members : List (String × Json)) :
    allInMembers (base ++ place) members = (allInMembers place members).map (under base) := by
  match members with
  | [] => rfl
  | (key, value) :: rest =>
    have hplace : (base ++ place).key key = base ++ place.key key := List.append_assoc _ _ _
    rw [allInMembers, allInMembers, List.map_append, hplace,
      allIn_append base (place.key key) value, allInMembers_append base place rest]

/-- The hosts in elements are the same from further outside. -/
theorem allInItems_append (base place : Pointer) (position : Nat) (items : List Json) :
    allInItems (base ++ place) position items =
      (allInItems place position items).map (under base) := by
  cases items with
  | nil => rfl
  | cons item rest =>
    have hplace : (base ++ place).index position = base ++ place.index position :=
      List.append_assoc _ _ _
    rw [allInItems, allInItems, List.map_append, hplace,
      allIn_append base (place.index position) item,
      allInItems_append base place (position + 1) rest]

end

/-- The hosts of a value that stands at a place are those of the value alone, seen from further
outside. -/
theorem allIn_eq_map (base : Pointer) (value : Json) :
    allIn base value = (allIn [] value).map (under base) := by
  rw [← allIn_append, List.append_nil]

/-- The hosts in the members of an object lie under one of its keys. -/
theorem place_ne_of_mem_allInMembers {members : List (String × Json)} {host : Host}
    (h : host ∈ allInMembers [] members) : host.place ≠ [] := by
  induction members with
  | nil => cases h
  | cons member rest ih =>
    rcases List.mem_append.mp h with h | h
    · rw [allIn_eq_map] at h
      obtain ⟨inner, -, rfl⟩ := List.mem_map.mp h
      simp [under, Pointer.key]
    · exact ih h

/-- The hosts in the elements of an array lie under one of its positions. -/
theorem place_ne_of_mem_allInItems {items : List Json} {host : Host} {position : Nat}
    (h : host ∈ allInItems [] position items) : host.place ≠ [] := by
  induction items generalizing position with
  | nil => cases h
  | cons item rest ih =>
    rcases List.mem_append.mp h with h | h
    · rw [allIn_eq_map] at h
      obtain ⟨inner, -, rfl⟩ := List.mem_map.mp h
      simp [under, Pointer.index]
    · exact ih h

/-- Whether an object is a host is told by its keys. -/
theorem here_congr {members members' : List (String × Json)}
    (h : members'.map Prod.fst = members.map Prod.fst) (place : Pointer) :
    here place members' = here place members := by
  match members, members' with
  | [], [] => rfl
  | [], _ :: _ | _ :: _, [] => simp at h
  | [(key, value)], [(key', value')] =>
    simp only [List.map_cons, List.map_nil, List.cons.injEq, and_true] at h
    subst h
    simp only [here, hosted?]
    cases Label.ofKey? key' <;> rfl
  | [_], _ :: _ :: _ | _ :: _ :: _, [_] => simp at h
  | _ :: _ :: _, _ :: _ :: _ => rfl

end Host

end Semijoin
