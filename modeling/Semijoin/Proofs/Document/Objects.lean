import Semijoin.Proofs.Document.Preorder
import Semijoin.Proofs.Pointer.Precedence

/-!
# The objects of a document

The objects in a value are listed by recursion on the value. They are those that a pointer leads
to, and they stand in preorder.
-/

namespace Semijoin

open Json

namespace Pointer

variable {segment : Segment} {rest : Pointer} {part : Json}

/-- A pointer leads into an object by the key of one of its members. -/
theorem resolve?_cons_object_iff {members : List (String × Json)} (hkeys : KeysOrdered members) :
    resolve? (segment :: rest) (.object members) = some part ↔
      ∃ member ∈ members, segment = .key member.1 ∧ rest.resolve? member.2 = some part := by
  cases segment with
  | index position => exact ⟨nofun, nofun⟩
  | key name =>
    rw [resolve?, Option.bind_eq_bind, Option.bind_eq_some_iff]
    constructor
    · rintro ⟨value, hlookup, hrest⟩
      obtain ⟨before, after, rfl, -⟩ := List.lookup_eq_some_iff.mp hlookup
      exact ⟨(name, value), by simp, rfl, hrest⟩
    · rintro ⟨⟨key, value⟩, hmember, hsegment, hrest⟩
      cases hsegment
      exact ⟨value, hkeys.lookup_of_mem hmember, hrest⟩

/-- A pointer leads into an array by the position of one of its elements. -/
theorem resolve?_cons_array_iff {items : List Json} :
    resolve? (segment :: rest) (.array items) = some part ↔
      ∃ position item, items[position]? = some item ∧ segment = .index position ∧
        rest.resolve? item = some part := by
  cases segment with
  | key name => exact ⟨nofun, nofun⟩
  | index position =>
    rw [resolve?, Option.bind_eq_bind, Option.bind_eq_some_iff]
    constructor
    · rintro ⟨item, hitem, hrest⟩
      exact ⟨position, item, hitem, rfl, hrest⟩
    · rintro ⟨position', item, hitem, hsegment, hrest⟩
      cases hsegment
      exact ⟨item, hitem, hrest⟩

end Pointer

namespace Json

mutual

/-- The objects in a value that stands at a place, in preorder, each as its place and its
members. -/
def objects (place : Pointer) : Json → List (Pointer × List (String × Json))
  | .object members => (place, members) :: membersObjects place members
  | .array items => itemsObjects place 0 items
  | _ => []

/-- The objects in the members of an object. -/
def membersObjects (place : Pointer) :
    List (String × Json) → List (Pointer × List (String × Json))
  | [] => []
  | (key, value) :: rest => objects (place.key key) value ++ membersObjects place rest

/-- The objects in the elements of an array, from some position on. -/
def itemsObjects (place : Pointer) :
    (position : Nat) → List Json → List (Pointer × List (String × Json))
  | _, [] => []
  | position, item :: rest =>
    objects (place.index position) item ++ itemsObjects place (position + 1) rest

end

variable {found : Pointer × List (String × Json)}

/-- The objects in the members of an object are those in the values. -/
theorem mem_membersObjects {place : Pointer} {members : List (String × Json)} :
    found ∈ membersObjects place members ↔
      ∃ member ∈ members, found ∈ objects (place.key member.1) member.2 := by
  induction members with
  | nil => simp [membersObjects]
  | cons member rest ih => simp [membersObjects, ih]

/-- The objects in the elements of an array are those in the elements one by one. -/
theorem mem_itemsObjects {place : Pointer} {position : Nat} {items : List Json} :
    found ∈ itemsObjects place position items ↔
      ∃ offset item, items[offset]? = some item ∧
        found ∈ objects (place.index (position + offset)) item := by
  induction items generalizing position with
  | nil => simp [itemsObjects]
  | cons item rest ih =>
    rw [itemsObjects, List.mem_append, ih]
    constructor
    · rintro (hfound | ⟨offset, item', hitem, hfound⟩)
      · exact ⟨0, item, rfl, hfound⟩
      · refine ⟨offset + 1, item', hitem, ?_⟩
        rwa [Nat.add_comm offset, ← Nat.add_assoc]
    · rintro ⟨offset, item', hitem, hfound⟩
      cases offset with
      | zero =>
        cases hitem
        exact .inl hfound
      | succ offset =>
        refine .inr ⟨offset, item', hitem, ?_⟩
        rwa [Nat.add_assoc, Nat.add_comm 1]

/-- The objects in a value are those that a pointer leads to. -/
theorem mem_objects_iff (place : Pointer) (value : Json) (hordered : value.IsOrdered) :
    found ∈ objects place value ↔
      ∃ inner, found.1 = place ++ inner ∧ inner.resolve? value = some (.object found.2) := by
  match value with
  | .object members =>
    obtain ⟨hkeys, hmembers⟩ := hordered
    have ih : ∀ member ∈ members, found ∈ objects (place.key member.1) member.2 ↔
        ∃ inner, found.1 = place.key member.1 ++ inner ∧
          inner.resolve? member.2 = some (.object found.2) := by
      rintro ⟨key, part⟩ hmember
      have hsize : sizeOf part < sizeOf members := by
        have hlt := List.sizeOf_lt_of_mem hmember
        rw [Prod.mk.sizeOf_spec] at hlt
        omega
      exact mem_objects_iff _ part (membersOrdered_iff.mp hmembers _ hmember)
    rw [objects, List.mem_cons, mem_membersObjects]
    constructor
    · rintro (rfl | ⟨member, hmember, hfound⟩)
      · exact ⟨[], (List.append_nil place).symm, rfl⟩
      · obtain ⟨inner, hplace, hinner⟩ := (ih member hmember).mp hfound
        exact ⟨.key member.1 :: inner, hplace.trans (List.append_assoc _ _ _),
          (Pointer.resolve?_cons_object_iff hkeys).mpr ⟨member, hmember, rfl, hinner⟩⟩
    · rintro ⟨_ | ⟨segment, rest⟩, hplace, hinner⟩
      · cases hinner
        exact .inl (Prod.ext (hplace.trans (List.append_nil place)) rfl)
      · obtain ⟨member, hmember, rfl, hrest⟩ :=
          (Pointer.resolve?_cons_object_iff hkeys).mp hinner
        exact .inr ⟨member, hmember, (ih member hmember).mpr
          ⟨rest, hplace.trans (List.append_assoc _ [_] _).symm, hrest⟩⟩
  | .array items =>
    have ih : ∀ offset item, items[offset]? = some item →
        (found ∈ objects (place.index offset) item ↔
          ∃ inner, found.1 = place.index offset ++ inner ∧
            inner.resolve? item = some (.object found.2)) := by
      intro offset item hitem
      have hsize := List.sizeOf_lt_of_mem (List.mem_of_getElem? hitem)
      exact mem_objects_iff _ item (itemsOrdered_iff.mp hordered _ (List.mem_of_getElem? hitem))
    rw [objects, mem_itemsObjects]
    simp only [Nat.zero_add]
    constructor
    · rintro ⟨offset, item, hitem, hfound⟩
      obtain ⟨inner, hplace, hinner⟩ := (ih _ _ hitem).mp hfound
      exact ⟨.index offset :: inner, hplace.trans (List.append_assoc _ _ _),
        Pointer.resolve?_cons_array_iff.mpr ⟨offset, item, hitem, rfl, hinner⟩⟩
    · rintro ⟨_ | ⟨segment, rest⟩, hplace, hinner⟩
      · cases hinner
      · obtain ⟨offset, item, hitem, rfl, hrest⟩ := Pointer.resolve?_cons_array_iff.mp hinner
        exact ⟨offset, item, hitem, (ih _ _ hitem).mpr
          ⟨rest, hplace.trans (List.append_assoc _ [_] _).symm, hrest⟩⟩
  | .null | .bool _ | .number _ | .string _ =>
    refine ⟨nofun, ?_⟩
    rintro ⟨_ | ⟨_ | _, _⟩, -, hinner⟩ <;> cases hinner
termination_by sizeOf value

mutual

/-- The objects in a value are listed in preorder. -/
theorem pairwise_objects (place : Pointer) (value : Json) (hordered : value.IsOrdered) :
    (objects place value).Pairwise fun found later => found.1.Before later.1 := by
  cases value with
  | object members =>
    obtain ⟨hkeys, hmembers⟩ := hordered
    refine List.pairwise_cons.mpr ⟨fun later hlater => ?_,
      pairwise_membersObjects place members hkeys hmembers⟩
    obtain ⟨member, hmember, hlater⟩ := mem_membersObjects.mp hlater
    obtain ⟨inner, hplace, -⟩ :=
      (mem_objects_iff _ _ (membersOrdered_iff.mp hmembers member hmember)).mp hlater
    rw [hplace, Pointer.key, List.append_assoc]
    exact place.before_append (by simp)
  | array items => exact pairwise_itemsObjects place 0 items hordered
  | null | bool _ | number _ | string _ => exact List.Pairwise.nil

/-- The objects in the members of an object are listed in preorder. -/
theorem pairwise_membersObjects (place : Pointer) (members : List (String × Json))
    (hkeys : KeysOrdered members) (hordered : MembersOrdered members) :
    (membersObjects place members).Pairwise fun found later => found.1.Before later.1 := by
  match members with
  | [] => exact List.Pairwise.nil
  | (key, value) :: rest =>
    obtain ⟨hlt, hkeys⟩ := List.pairwise_cons.mp hkeys
    refine List.pairwise_append.mpr ⟨pairwise_objects _ value hordered.1,
      pairwise_membersObjects place rest hkeys hordered.2, fun found hfound later hlater => ?_⟩
    obtain ⟨member, hmember, hlater⟩ := mem_membersObjects.mp hlater
    obtain ⟨inner, hplace, -⟩ := (mem_objects_iff _ value hordered.1).mp hfound
    obtain ⟨inner', hplace', -⟩ :=
      (mem_objects_iff _ _ (membersOrdered_iff.mp hordered.2 member hmember)).mp hlater
    rw [hplace, hplace', Pointer.key, Pointer.key, List.append_assoc, List.append_assoc]
    exact Pointer.Before.under (Pointer.before_cons_iff.mpr
      (.inl (Segment.order_key_eq_lt_iff.mpr (hlt member hmember)))) place

/-- The objects in the elements of an array are listed in preorder. -/
theorem pairwise_itemsObjects (place : Pointer) (position : Nat) (items : List Json)
    (hordered : ItemsOrdered items) :
    (itemsObjects place position items).Pairwise fun found later =>
      found.1.Before later.1 := by
  match items with
  | [] => exact List.Pairwise.nil
  | item :: rest =>
    refine List.pairwise_append.mpr ⟨pairwise_objects _ item hordered.1,
      pairwise_itemsObjects place (position + 1) rest hordered.2,
      fun found hfound later hlater => ?_⟩
    obtain ⟨offset, item', hitem, hlater⟩ := mem_itemsObjects.mp hlater
    obtain ⟨inner, hplace, -⟩ := (mem_objects_iff _ item hordered.1).mp hfound
    obtain ⟨inner', hplace', -⟩ := (mem_objects_iff _ _
      (itemsOrdered_iff.mp hordered.2 item' (List.mem_of_getElem? hitem))).mp hlater
    rw [hplace, hplace', Pointer.index, Pointer.index, List.append_assoc, List.append_assoc]
    exact Pointer.Before.under (Pointer.before_cons_iff.mpr
      (.inl (Segment.order_index_eq_lt_iff.mpr (by omega)))) place

end

end Json

end Semijoin
