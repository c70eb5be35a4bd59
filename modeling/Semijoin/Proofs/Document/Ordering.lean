import Semijoin.Proofs.Document.Turn
import Semijoin.Proofs.Join.Soundness
import Semijoin.Proofs.Specification.Carrying

/-!
# Documents stay ordered

The clauses of a specification are ordered if the specification is, and clauses that go to the place
of a host leave the keys of all objects around it as they are. So a document stays ordered while its
hosts are replaced, also when this fails on the way.
-/

namespace Semijoin

open Json

namespace Json

/-- Order passes from a value to its parts. -/
theorem passesDown_isOrdered : PassesDown IsOrdered IsOrdered where
  null := trivial
  item h := itemsOrdered_iff.mp h
  element h := itemsOrdered_iff.mp h
  member h := membersOrdered_iff.mp h.2

/-- Every member that there is after changing one is the changed one or was there before. -/
theorem mem_setMember {α : Type} {key : String} {value : α} {members : List (String × α)}
    {member : String × α} (h : member ∈ setMember key value members) :
    member = (key, value) ∨ member ∈ members := by
  fun_induction setMember key value members <;> grind

/-- An ordered object stays ordered when a member gets an ordered value. -/
theorem IsOrdered.setMember {members : List (String × Json)} {value : Json} (key : String)
    (h : (object members).IsOrdered) (hvalue : value.IsOrdered) :
    (object (setMember key value members)).IsOrdered := by
  have hkeys : KeysOrdered (Json.setMember key value members) :=
    (keysOrdered_iff_keys _ (keys_setMember key value members)).mpr
      ((keysOrdered_iff_keys _ rfl).mp h.1)
  refine ⟨hkeys, membersOrdered_iff.mpr fun member hmember => ?_⟩
  rcases mem_setMember hmember with rfl | hmember
  · exact hvalue
  · exact membersOrdered_iff.mp h.2 member hmember

end Json

/-- The clauses of an ordered specification are ordered. -/
theorem Specification.isOrdered_of_clauses? {sentinel : String} {label : Label} {value : Json}
    (hvalue : value.IsOrdered) {clauses : List Json}
    (h : clauses? sentinel label value = some clauses) :
    ∀ clause ∈ clauses, clause.IsOrdered := by
  obtain ⟨specification, joins, hread, hjoins, rfl⟩ := exists_joins_of_clauses? h
  exact passesUp_isOrdered.clauses (carries_of_joins passesDown_isOrdered hvalue hread hjoins)

/-- A document stays ordered when ordered clauses go to a place in it. -/
theorem Pointer.isOrdered_of_fill? {clauses : List Json}
    (hclauses : ∀ clause ∈ clauses, clause.IsOrdered) {place : Pointer} {value filled : Json}
    (hvalue : value.IsOrdered) (h : place.fill? clauses value = some filled) :
    filled.IsOrdered := by
  induction place generalizing value filled with
  | nil =>
    cases h
    exact itemsOrdered_iff.mpr hclauses
  | cons segment rest ih =>
    cases segment with
    | key name =>
      obtain ⟨members, member, member', rfl, hmember, hfill, rfl⟩ := fill?_key h
      have hordered : member.IsOrdered :=
        part_of_lookup (membersOrdered_iff.mp hvalue.2) hmember
      exact hvalue.setMember name (ih hordered hfill)
    | index position =>
      by_cases hrest : rest = []
      · subst hrest
        cases value with
        | array items =>
          simp only [fill?] at h
          split at h
          · cases h
            have hitems := itemsOrdered_iff.mp hvalue
            refine itemsOrdered_iff.mpr (List.forall_mem_append.mpr ⟨List.forall_mem_append.mpr
              ⟨fun item hitem => ?_, hclauses⟩, fun item hitem => ?_⟩)
            · exact hitems item (List.mem_of_mem_take hitem)
            · exact hitems item (List.mem_of_mem_drop hitem)
          · cases h
        | null | bool _ | number _ | string _ | object _ => cases h
      · obtain ⟨items, item, item', rfl, hitem, hfill, rfl⟩ := fill?_index hrest h
        have hitems := itemsOrdered_iff.mp hvalue
        have hordered := ih (hitems item (List.mem_of_getElem? hitem)) hfill
        refine itemsOrdered_iff.mpr fun other hother => ?_
        rcases List.mem_or_eq_of_mem_set hother with hother | rfl
        · exact hitems other hother
        · exact hordered

/-- A document stays ordered when hosts in it are replaced. -/
theorem Host.isOrdered_of_run? {sentinel : String} {hosts : List Host} {document replaced : Json}
    {count : Nat} (hordered : document.IsOrdered)
    (hrun : run? sentinel hosts document = some (count, replaced)) : replaced.IsOrdered := by
  refine run?_induction hrun (fun host _ before count stepped hstep hbefore => ?_) hordered
  obtain ⟨value, clauses, hvalue, hclauses, hfill⟩ := exists_fill?_of_step? hstep
  have hall := Specification.isOrdered_of_clauses? (hbefore.resolve? hvalue) hclauses
  exact Pointer.isOrdered_of_fill? hall hbefore hfill

end Semijoin
