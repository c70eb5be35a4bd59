import Semijoin.Json.Basic

/-!
# Members of objects

A document that has been read has the members of every object in the order of their keys,
each key once. Looking up, adding and changing members are defined for all lists, and
adding and changing keep that order.
-/

namespace Semijoin.Json

/-- The members of an object; every other value has none. -/
def members : Json → List (String × Json)
  | .object members => members
  | _ => []

/-- The value under a key of an object. -/
def member? (key : String) (value : Json) : Option Json :=
  value.members.lookup key

/-- The text of a string value. -/
def string? : Json → Option String
  | .string text => some text
  | _ => none

variable {α : Type}

/-- Adds a member at its place in the order of the keys. A member that is already there
under this key gets the new value. -/
def insertMember (key : String) (value : α) : List (String × α) → List (String × α)
  | [] => [(key, value)]
  | (k, v) :: rest =>
    if key < k then (key, value) :: (k, v) :: rest
    else if key = k then (key, value) :: rest
    else (k, v) :: insertMember key value rest

/-- Puts members in the order of their keys; of several with one key the last stays. -/
def sortMembers (members : List (String × α)) : List (String × α) :=
  members.foldl (fun sorted (key, value) => insertMember key value sorted) []

/-- Changes the first member under a key, if there is one. -/
def setMember (key : String) (value : α) : List (String × α) → List (String × α)
  | [] => []
  | (k, v) :: rest =>
    if key = k then (key, value) :: rest else (k, v) :: setMember key value rest

/-- Changing a member changes what its key finds and nothing else. -/
theorem lookup_setMember (key k : String) (value : α) (members : List (String × α)) :
    (setMember key value members).lookup k =
      if k = key then (members.lookup k).map fun _ => value else members.lookup k := by
  fun_induction setMember key value members <;> grind

/-- Changing a member keeps the keys. -/
theorem keys_setMember (key : String) (value : α) (members : List (String × α)) :
    (setMember key value members).map Prod.fst = members.map Prod.fst := by
  fun_induction setMember key value members <;> grind

/-- What is found in a single member is its value, under its key. -/
theorem eq_of_lookup_singleton {key k : String} {value found : α}
    (h : [(key, value)].lookup k = some found) : k = key ∧ found = value := by
  by_cases hkey : k = key
  · subst hkey
    rw [List.lookup_cons_self] at h
    exact ⟨rfl, (Option.some.inj h).symm⟩
  · rw [List.lookup_cons, beq_false_of_ne hkey] at h
    cases h

/-- The keys of an object stand in strictly increasing order. -/
def KeysOrdered (members : List (String × α)) : Prop :=
  members.Pairwise fun a b => a.1 < b.1

/-- Every member that there is after adding one was there before or is the added one. -/
theorem mem_insertMember {key : String} {value : α} {members : List (String × α)}
    {member : String × α} (h : member ∈ insertMember key value members) :
    member = (key, value) ∨ member ∈ members := by
  fun_induction insertMember key value members <;> grind

/-- Adding a member keeps the keys in order. -/
theorem KeysOrdered.insertMember {members : List (String × α)} (h : KeysOrdered members)
    (key : String) (value : α) : KeysOrdered (insertMember key value members) := by
  unfold KeysOrdered at h ⊢
  fun_induction Json.insertMember key value members with
  | case1 => simp
  | case2 k v rest hlt =>
    refine List.pairwise_cons.2 ⟨fun member hmember => ?_, h⟩
    rcases List.mem_cons.1 hmember with rfl | hmember
    · exact hlt
    · exact String.lt_trans hlt ((List.pairwise_cons.1 h).1 member hmember)
  | case3 v rest hlt =>
    exact List.pairwise_cons.2 (List.pairwise_cons.1 h)
  | case4 k v rest hlt hne ih =>
    obtain ⟨hhead, hrest⟩ := List.pairwise_cons.1 h
    refine List.pairwise_cons.2 ⟨fun member hmember => ?_, ih hrest⟩
    rcases mem_insertMember hmember with rfl | hmember
    · exact Std.lt_of_le_of_ne (String.not_lt.1 hlt) (Ne.symm hne)
    · exact hhead member hmember

/-- Adding members one after the other keeps the keys in order. -/
private theorem keysOrdered_addAll {members sorted : List (String × α)}
    (h : KeysOrdered sorted) :
    KeysOrdered
      (members.foldl (fun sorted (key, value) => insertMember key value sorted) sorted) := by
  induction members generalizing sorted with
  | nil => exact h
  | cons member rest ih => exact ih (h.insertMember member.1 member.2)

/-- Sorted members have their keys in order, each key once. -/
theorem keysOrdered_sortMembers (members : List (String × α)) :
    KeysOrdered (sortMembers members) :=
  keysOrdered_addAll .nil

/-- A member that is there after adding members was there before or is one of them. -/
private theorem mem_addAll {members sorted : List (String × α)} {member : String × α}
    (h : member ∈
      members.foldl (fun sorted (key, value) => insertMember key value sorted) sorted) :
    member ∈ sorted ∨ member ∈ members := by
  induction members generalizing sorted with
  | nil => exact .inl h
  | cons first rest ih =>
    rcases ih h with h | h
    · rcases mem_insertMember h with rfl | h
      · exact .inr List.mem_cons_self
      · exact .inl h
    · exact .inr (List.mem_cons_of_mem _ h)

/-- Sorting brings no member that was not there. -/
theorem mem_of_mem_sortMembers {members : List (String × α)} {member : String × α}
    (h : member ∈ sortMembers members) : member ∈ members := by
  rcases mem_addAll h with h | h
  · cases h
  · exact h

mutual

/-- Every object of the tree has its keys in order, each key once. -/
def IsOrdered : Json → Prop
  | .array items => ItemsOrdered items
  | .object members => KeysOrdered members ∧ MembersOrdered members
  | _ => True

/-- Every element of an array is ordered. -/
def ItemsOrdered : List Json → Prop
  | [] => True
  | item :: rest => item.IsOrdered ∧ ItemsOrdered rest

/-- Every value in an object is ordered. -/
def MembersOrdered : List (String × Json) → Prop
  | [] => True
  | (_, value) :: rest => value.IsOrdered ∧ MembersOrdered rest

end

instance (members : List (String × α)) : Decidable (KeysOrdered members) :=
  inferInstanceAs (Decidable (members.Pairwise fun a b => a.1 < b.1))

mutual

/-- The order of the members is decided along the tree. -/
def decOrdered : (value : Json) → Decidable value.IsOrdered
  | .array items => decItemsOrdered items
  | .object members =>
    have := decMembersOrdered members
    inferInstanceAs (Decidable (KeysOrdered members ∧ MembersOrdered members))
  | .null | .bool _ | .number _ | .string _ => isTrue trivial

/-- The order in the elements of an array. -/
def decItemsOrdered : (items : List Json) → Decidable (ItemsOrdered items)
  | [] => isTrue trivial
  | item :: rest =>
    have := decOrdered item
    have := decItemsOrdered rest
    inferInstanceAs (Decidable (item.IsOrdered ∧ ItemsOrdered rest))

/-- The order in the values of an object. -/
def decMembersOrdered : (members : List (String × Json)) → Decidable (MembersOrdered members)
  | [] => isTrue trivial
  | (_, value) :: rest =>
    have := decOrdered value
    have := decMembersOrdered rest
    inferInstanceAs (Decidable (value.IsOrdered ∧ MembersOrdered rest))

end

instance (value : Json) : Decidable value.IsOrdered := decOrdered value

/-- What is told of a list by recursion, one value after another, is told of each value in it. -/
theorem iff_forall_mem {α : Type} {all : List α → Prop} {each : α → Prop} (hnil : all [])
    (hcons : ∀ value rest, all (value :: rest) ↔ each value ∧ all rest) {values : List α} :
    all values ↔ ∀ value ∈ values, each value := by
  induction values with
  | nil => exact iff_of_true hnil (List.forall_mem_nil _)
  | cons value rest ih => rw [hcons, ih, List.forall_mem_cons]

/-- The elements of an array are ordered one by one. -/
theorem itemsOrdered_iff {items : List Json} :
    ItemsOrdered items ↔ ∀ item ∈ items, item.IsOrdered :=
  iff_forall_mem trivial fun _ _ => .rfl

/-- The values of an object are ordered one by one. -/
theorem membersOrdered_iff {members : List (String × Json)} :
    MembersOrdered members ↔ ∀ member ∈ members, member.2.IsOrdered :=
  iff_forall_mem trivial fun _ _ => .rfl

/-- Sorting keeps the values ordered. -/
theorem membersOrdered_sortMembers {members : List (String × Json)}
    (h : MembersOrdered members) : MembersOrdered (sortMembers members) := by
  rw [membersOrdered_iff] at h ⊢
  exact fun member hmember => h member (mem_of_mem_sortMembers hmember)

end Semijoin.Json
