import Semijoin.Json.Reader
import Semijoin.Outcome

/-!
# What is read is ordered

The members of a draft go to their places in the order of the keys when it becomes a value, so
every value that a text stands for has the members of all its objects in order.
-/

namespace Semijoin

namespace Draft

open Json

mutual

/-- The value of a draft has the members of all its objects in order. -/
theorem isOrdered_of_toJson (draft : Draft) {value : Json} (h : draft.toJson = .ok value) :
    value.IsOrdered := by
  cases draft with
  | scalar scalar =>
    rw [toJson] at h
    cases h
    cases scalar <;> exact trivial
  | array items =>
    rw [toJson] at h
    obtain ⟨values, hvalues, h⟩ := bind_eq_ok h
    cases h
    exact itemsOrdered_of_itemsToJson items hvalues
  | object members =>
    rw [toJson] at h
    obtain ⟨values, hvalues, h⟩ := bind_eq_ok h
    cases h
    exact ⟨keysOrdered_sortMembers values,
      membersOrdered_sortMembers (membersOrdered_of_membersToJson members hvalues)⟩
  | flawed fault =>
    rw [toJson] at h
    cases h

/-- The values of the elements of an array are ordered. -/
theorem itemsOrdered_of_itemsToJson (items : List Draft) {values : List Json}
    (h : itemsToJson items = .ok values) : ItemsOrdered values := by
  cases items with
  | nil =>
    rw [itemsToJson] at h
    cases h
    exact trivial
  | cons item rest =>
    rw [itemsToJson] at h
    obtain ⟨value, hvalue, h⟩ := bind_eq_ok h
    obtain ⟨values, hvalues, h⟩ := bind_eq_ok h
    cases h
    exact ⟨isOrdered_of_toJson item hvalue, itemsOrdered_of_itemsToJson rest hvalues⟩

/-- The values of the members of an object are ordered. -/
theorem membersOrdered_of_membersToJson (members : List (Key × Draft))
    {values : List (String × Json)} (h : membersToJson members = .ok values) :
    MembersOrdered values := by
  cases members with
  | nil =>
    rw [membersToJson] at h
    cases h
    exact trivial
  | cons member rest =>
    rw [membersToJson] at h
    obtain ⟨key, -, h⟩ := bind_eq_ok h
    obtain ⟨value, hvalue, h⟩ := bind_eq_ok h
    obtain ⟨values, hvalues, h⟩ := bind_eq_ok h
    cases h
    exact ⟨isOrdered_of_toJson member.2 hvalue, membersOrdered_of_membersToJson rest hvalues⟩

end

end Draft

namespace Json

/-- The value that a text stands for has the members of all its objects in the order of
their keys, each key once. -/
theorem isOrdered_of_ofChars {text : List Char} {value : Json} (h : ofChars text = .ok value) :
    value.IsOrdered := by
  obtain ⟨draft, -, h⟩ := bind_eq_ok h
  exact draft.isOrdered_of_toJson h

end Json

end Semijoin
