import Semijoin.Proofs.Document.Replacement

/-!
# What is left alone when a host is replaced

Clauses that go to a place leave alone what stands apart from it on the left, and the hosts around
it stay hosts. The hosts of a document stand in such an order that each is left at its place by the
replacement of those after it.
-/

namespace Semijoin

open Json

namespace Pointer

/-- Two places on different branches. Of two elements of an array, the earlier one comes first. -/
inductive Apart : Pointer → Pointer → Prop
  | key {a b : String} (h : a ≠ b) (p q : Pointer) : Apart (.key a :: p) (.key b :: q)
  | index {i j : Nat} (h : i < j) (p q : Pointer) : Apart (.index i :: p) (.index j :: q)
  | inside (segment : Segment) {p q : Pointer} (h : Apart p q) : Apart (segment :: p) (segment :: q)

/-- A place that is left where it is when the other is filled: the other is inside it or apart. -/
def Ahead (p q : Pointer) : Prop := (∃ inner, inner ≠ [] ∧ q = p ++ inner) ∨ Apart p q

/-- Whatever is inside a place is apart from what the place is apart from. -/
theorem Apart.append {p q : Pointer} (h : Apart p q) (inner : Pointer) : Apart (p ++ inner) q := by
  induction h with
  | key hkey p q => exact .key hkey _ _
  | index hlt p q => exact .index hlt _ _
  | inside segment h ih => exact .inside segment ih

/-- Places that are apart are so from further outside. -/
theorem Apart.under {p q : Pointer} (h : Apart p q) (base : Pointer) :
    Apart (base ++ p) (base ++ q) := by
  induction base with
  | nil => exact h
  | cons segment rest ih => exact .inside segment ih

/-- The order of two places is the same from further outside. -/
theorem Ahead.under {p q : Pointer} (h : Ahead p q) (base : Pointer) :
    Ahead (base ++ p) (base ++ q) := by
  rcases h with ⟨inner, hinner, rfl⟩ | happart
  · exact .inl ⟨inner, hinner, (List.append_assoc base p inner).symm⟩
  · exact .inr (happart.under base)

section Filling

variable {clauses : List Json} {value filled : Json}

/-- Clauses that go to a place in a member go there in its value. -/
theorem fill?_key {name : String} {rest : Pointer}
    (h : fill? clauses (.key name :: rest) value = some filled) :
    ∃ members member member', value = .object members ∧ members.lookup name = some member ∧
      fill? clauses rest member = some member' ∧
      filled = .object (setMember name member' members) := by
  cases value with
  | object members =>
    simp only [fill?, Option.bind_eq_bind, Option.bind_eq_some_iff, Option.pure_def,
      Option.some.injEq] at h
    obtain ⟨member, hmember, member', hfill, rfl⟩ := h
    exact ⟨members, member, member', rfl, hmember, hfill, rfl⟩
  | null | bool _ | number _ | string _ | array _ => cases h

/-- Clauses that go to a place in an element go there in its value. -/
theorem fill?_index {position : Nat} {rest : Pointer} (hrest : rest ≠ [])
    (h : fill? clauses (.index position :: rest) value = some filled) :
    ∃ items item item', value = .array items ∧ items[position]? = some item ∧
      fill? clauses rest item = some item' ∧ filled = .array (items.set position item') := by
  obtain ⟨segment, others, rfl⟩ := List.exists_cons_of_ne_nil hrest
  cases value with
  | array items =>
    simp only [fill?, Option.bind_eq_bind, Option.bind_eq_some_iff, Option.pure_def,
      Option.some.injEq] at h
    obtain ⟨item, hitem, item', hfill, rfl⟩ := h
    exact ⟨items, item, item', rfl, hitem, hfill, rfl⟩
  | null | bool _ | number _ | string _ | object _ => cases h

/-- Clauses that go to an element, or to a place in it, leave the elements before it alone. -/
theorem fill?_index_earlier {position : Nat} {rest : Pointer}
    (h : fill? clauses (.index position :: rest) value = some filled) :
    ∃ items items', value = .array items ∧ filled = .array items' ∧
      ∀ earlier < position, items'[earlier]? = items[earlier]? := by
  by_cases hrest : rest = []
  · subst hrest
    cases value with
    | array items =>
      simp only [fill?] at h
      split at h
      · rename_i hposition
        cases h
        refine ⟨items, _, rfl, rfl, fun earlier hearlier => ?_⟩
        have hlength : earlier < (items.take position).length := by
          rw [List.length_take]
          omega
        rw [List.append_assoc, List.getElem?_append_left hlength,
          List.getElem?_take_of_lt hearlier]
      · cases h
    | null | bool _ | number _ | string _ | object _ => cases h
  · obtain ⟨items, item, item', rfl, -, -, rfl⟩ := fill?_index hrest h
    exact ⟨items, _, rfl, rfl, fun earlier hearlier => List.getElem?_set_ne (by omega)⟩

/-- Clauses that go to a place leave alone what is apart from it. -/
theorem Apart.resolve?_fill? {p q : Pointer} (h : Apart p q)
    (hfill : fill? clauses q value = some filled) : p.resolve? filled = p.resolve? value := by
  induction h generalizing value filled with
  | key hkey p q =>
    obtain ⟨members, member, member', rfl, -, -, rfl⟩ := fill?_key hfill
    simp only [resolve?, lookup_setMember, if_neg hkey]
  | index hlt p q =>
    obtain ⟨items, items', rfl, rfl, hearlier⟩ := fill?_index_earlier hfill
    simp only [resolve?, hearlier _ hlt]
  | inside segment h ih =>
    cases segment with
    | key name =>
      obtain ⟨members, member, member', rfl, hmember, hinner, rfl⟩ := fill?_key hfill
      simp only [resolve?, lookup_setMember, if_true, hmember]
      exact ih hinner
    | index position =>
      rename_i q
      have hrest : q ≠ [] := by
        rintro rfl
        cases h
      obtain ⟨items, item, item', rfl, hitem, hinner, rfl⟩ := fill?_index hrest hfill
      simp only [resolve?, hitem, List.getElem?_set_self (List.getElem?_eq_some_iff.mp hitem).1]
      exact ih hinner

/-- Clauses that go further in than some place go there in the value at that place. -/
theorem fill?_append {p inner : Pointer} (hinner : inner ≠ [])
    (h : fill? clauses (p ++ inner) value = some filled) :
    ∃ found found', p.resolve? value = some found ∧ fill? clauses inner found = some found' ∧
      p.resolve? filled = some found' := by
  induction p generalizing value filled with
  | nil => exact ⟨value, filled, rfl, h, rfl⟩
  | cons segment rest ih =>
    cases segment with
    | key name =>
      obtain ⟨members, member, member', rfl, hmember, hfill, rfl⟩ := fill?_key h
      obtain ⟨found, found', hfound, hfilled, hfound'⟩ := ih hfill
      refine ⟨found, found', ?_, hfilled, ?_⟩
      · simp only [resolve?, hmember]
        exact hfound
      · simp only [resolve?, lookup_setMember, if_true, hmember]
        exact hfound'
    | index position =>
      have hrest : rest ++ inner ≠ [] := List.append_ne_nil_of_right_ne_nil rest hinner
      obtain ⟨items, item, item', rfl, hitem, hfill, rfl⟩ := fill?_index hrest h
      obtain ⟨found, found', hfound, hfilled, hfound'⟩ := ih hfill
      refine ⟨found, found', ?_, hfilled, ?_⟩
      · simp only [resolve?, hitem]
        exact hfound
      · simp only [resolve?, List.getElem?_set_self (List.getElem?_eq_some_iff.mp hitem).1]
        exact hfound'

/-- Clauses can go to every place that there is. -/
theorem exists_fill?_of_resolve? {p : Pointer} {found : Json} (h : p.resolve? value = some found) :
    ∃ filled, fill? clauses p value = some filled := by
  induction p generalizing value with
  | nil => exact ⟨_, rfl⟩
  | cons segment rest ih =>
    cases segment with
    | key name =>
      cases value with
      | object members =>
        simp only [resolve?, Option.bind_eq_bind, Option.bind_eq_some_iff] at h
        obtain ⟨member, hmember, hfound⟩ := h
        obtain ⟨member', hfill⟩ := ih hfound
        exact ⟨_, by simp only [fill?, hmember, hfill, Option.bind_eq_bind, Option.bind_some]; rfl⟩
      | null | bool _ | number _ | string _ | array _ => cases h
    | index position =>
      cases value with
      | array items =>
        simp only [resolve?, Option.bind_eq_bind, Option.bind_eq_some_iff] at h
        obtain ⟨item, hitem, hfound⟩ := h
        obtain ⟨item', hfill⟩ := ih hfound
        cases rest with
        | nil =>
          have hposition := (List.getElem?_eq_some_iff.mp hitem).1
          exact ⟨_, if_pos hposition⟩
        | cons segment others =>
          exact ⟨_, by simp only [fill?, hitem, hfill, Option.bind_eq_bind, Option.bind_some]; rfl⟩
      | null | bool _ | number _ | string _ | object _ => cases h

end Filling

end Pointer

namespace Json

/-- A member is found under its key if the keys are in order. -/
theorem KeysOrdered.lookup_of_mem {members : List (String × Json)} (h : KeysOrdered members)
    {key : String} {value : Json} (hmem : (key, value) ∈ members) :
    members.lookup key = some value := by
  obtain ⟨before, after, rfl⟩ := List.append_of_mem hmem
  refine lookup_append_cons (fun member hmember heq => ?_) value after
  have hlt := (List.pairwise_append.mp h).2.2 member hmember _ List.mem_cons_self
  rw [heq] at hlt
  exact String.lt_irrefl key hlt

end Json

namespace Host

/-- A host is in a document: an object with its label as the only key is at its place. -/
def KeptIn (document : Json) (host : Host) : Prop :=
  ∃ specification, host.place.resolve? document = some (.object [(host.label.key, specification)])

/-- The hosts in the members of an object are those in the values, under their keys. -/
theorem mem_allInMembers {members : List (String × Json)} {host : Host} :
    host ∈ allInMembers [] members ↔ ∃ key value inner, (key, value) ∈ members ∧
      inner ∈ allIn [] value ∧ host = inner.under [.key key] := by
  induction members with
  | nil => simp [allInMembers]
  | cons member rest ih =>
    obtain ⟨key, value⟩ := member
    rw [allInMembers, List.mem_append, ih, allIn_eq_map, List.mem_map]
    constructor
    · rintro (⟨inner, hinner, rfl⟩ | ⟨key', value', inner, hmember, hinner, rfl⟩)
      · exact ⟨key, value, inner, List.mem_cons_self, hinner, rfl⟩
      · exact ⟨key', value', inner, List.mem_cons_of_mem _ hmember, hinner, rfl⟩
    · rintro ⟨key', value', inner, hmember, hinner, rfl⟩
      rcases List.mem_cons.mp hmember with heq | hmember
      · cases heq
        exact .inl ⟨inner, hinner, rfl⟩
      · exact .inr ⟨key', value', inner, hmember, hinner, rfl⟩

/-- The hosts in the elements of an array are those in the values, under their positions. -/
theorem mem_allInItems {items : List Json} {position : Nat} {host : Host} :
    host ∈ allInItems [] position items ↔ ∃ offset item inner, items[offset]? = some item ∧
      inner ∈ allIn [] item ∧ host = inner.under [.index (position + offset)] := by
  induction items generalizing position with
  | nil => simp [allInItems]
  | cons item rest ih =>
    rw [allInItems, List.mem_append, ih, allIn_eq_map, List.mem_map]
    constructor
    · rintro (⟨inner, hinner, rfl⟩ | ⟨offset, item', inner, hitem, hinner, rfl⟩)
      · exact ⟨0, item, inner, rfl, hinner, rfl⟩
      · refine ⟨offset + 1, item', inner, hitem, hinner, ?_⟩
        rw [Nat.add_assoc, Nat.add_comm 1]
    · rintro ⟨offset, item', inner, hitem, hinner, rfl⟩
      cases offset with
      | zero =>
        cases hitem
        exact .inl ⟨inner, hinner, rfl⟩
      | succ offset =>
        refine .inr ⟨offset, item', inner, hitem, hinner, ?_⟩
        rw [Nat.add_assoc, Nat.add_comm 1]

/-- The hosts in a part of a value are hosts in the value. -/
theorem under_mem_allIn {place : Pointer} {value part : Json}
    (h : place.resolve? value = some part) {inner : Host} (hinner : inner ∈ allIn [] part) :
    inner.under place ∈ allIn [] value := by
  induction place generalizing value with
  | nil =>
    cases h
    exact hinner
  | cons segment rest ih =>
    cases segment with
    | key name =>
      cases value with
      | object members =>
        obtain ⟨member, hmember, hrest⟩ := Option.bind_eq_some_iff.mp h
        obtain ⟨before, after, hsplit, -⟩ := List.lookup_eq_some_iff.mp hmember
        refine List.mem_append_right _ (mem_allInMembers.mpr ?_)
        exact ⟨name, member, inner.under rest, by simp [hsplit], ih hrest, rfl⟩
      | null | bool _ | number _ | string _ | array _ => cases h
    | index position =>
      cases value with
      | array items =>
        obtain ⟨item, hitem, hrest⟩ := Option.bind_eq_some_iff.mp h
        refine mem_allInItems.mpr ⟨position, item, inner.under rest, hitem, ih hrest, ?_⟩
        rw [Nat.zero_add]
        rfl
      | null | bool _ | number _ | string _ | object _ => cases h

/-- A host in a part of a value is a host in the value. -/
theorem KeptIn.under {host : Host} {part value : Json} (h : host.KeptIn part) {base : Pointer}
    (hbase : base.resolve? value = some part) : (host.under base).KeptIn value := by
  obtain ⟨specification, hresolve⟩ := h
  refine ⟨specification, ?_⟩
  have happend := Pointer.resolve?_append base host.place value
  rw [hbase] at happend
  exact happend.trans hresolve

/-- Every host that is found in a value is at its place. -/
theorem keptIn_of_mem_allIn (value : Json) (hordered : value.IsOrdered) {host : Host}
    (h : host ∈ allIn [] value) : host.KeptIn value := by
  match value with
  | .object members =>
    obtain ⟨hkeys, hmembers⟩ := hordered
    rcases List.mem_append.mp h with h | h
    · unfold here at h
      split at h
      · rename_i label specification hhosted
        rw [List.mem_singleton.mp h]
        exact ⟨specification, by rw [hosted?_eq_some_iff.mp hhosted]; rfl⟩
      · cases h
    · obtain ⟨key, part, inner, hmember, hinner, rfl⟩ := mem_allInMembers.mp h
      have hpart := membersOrdered_iff.mp hmembers _ hmember
      have hsize : sizeOf part < sizeOf members := by
        have hlt := List.sizeOf_lt_of_mem hmember
        rw [Prod.mk.sizeOf_spec] at hlt
        omega
      refine (keptIn_of_mem_allIn part hpart hinner).under ?_
      simp only [Pointer.resolve?, hkeys.lookup_of_mem hmember]
      rfl
  | .array items =>
    obtain ⟨offset, part, inner, hitem, hinner, rfl⟩ := mem_allInItems.mp h
    have hmember := List.mem_of_getElem? hitem
    have hpart := itemsOrdered_iff.mp hordered _ hmember
    have hsize := List.sizeOf_lt_of_mem hmember
    refine (keptIn_of_mem_allIn part hpart hinner).under ?_
    simp only [Pointer.resolve?, Nat.zero_add, hitem]
    rfl
  | .null | .bool _ | .number _ | .string _ => cases h
termination_by sizeOf value

/-- Hosts are ahead of those after them also from further outside. -/
theorem pairwise_under {hosts : List Host}
    (h : hosts.Pairwise fun host later => host.place.Ahead later.place) (base : Pointer) :
    (hosts.map (under base)).Pairwise fun host later => host.place.Ahead later.place := by
  rw [List.pairwise_map]
  exact h.imp fun h => h.under base

mutual

/-- The hosts of a value stand in such an order that each is ahead of those after it. -/
theorem pairwise_allIn (value : Json) (hordered : value.IsOrdered) :
    (allIn [] value).Pairwise fun host later => host.place.Ahead later.place := by
  cases value with
  | object members =>
    obtain ⟨hkeys, hmembers⟩ := hordered
    rw [allIn]
    refine List.pairwise_append.mpr ⟨?_, pairwise_allInMembers members hkeys hmembers, ?_⟩
    · unfold here
      split
      · exact List.pairwise_singleton _ _
      · exact List.Pairwise.nil
    · intro host hhost later hlater
      have hplace : host.place = [] := by
        unfold here at hhost
        split at hhost
        · rw [List.mem_singleton.mp hhost]
        · cases hhost
      exact .inl ⟨later.place, place_ne_of_mem_allInMembers hlater, by rw [hplace]; rfl⟩
  | array items => exact pairwise_allInItems 0 items hordered
  | null | bool _ | number _ | string _ => exact List.Pairwise.nil

/-- The hosts in the members of an object stand in such an order. -/
theorem pairwise_allInMembers (members : List (String × Json)) (hkeys : KeysOrdered members)
    (hordered : MembersOrdered members) :
    (allInMembers [] members).Pairwise fun host later => host.place.Ahead later.place := by
  match members with
  | [] => exact List.Pairwise.nil
  | (key, value) :: rest =>
    obtain ⟨hlt, hkeys⟩ := List.pairwise_cons.mp hkeys
    rw [allInMembers, allIn_eq_map]
    refine List.pairwise_append.mpr ⟨pairwise_under (pairwise_allIn value hordered.1) _,
      pairwise_allInMembers rest hkeys hordered.2, ?_⟩
    intro host hhost later hlater
    obtain ⟨inner, -, rfl⟩ := List.mem_map.mp hhost
    obtain ⟨key', value', inner', hmember, -, rfl⟩ := mem_allInMembers.mp hlater
    have hne : key ≠ key' := by
      rintro rfl
      exact String.lt_irrefl key (hlt _ hmember)
    exact .inr (.key hne _ _)

/-- The hosts in the elements of an array stand in such an order. -/
theorem pairwise_allInItems (position : Nat) (items : List Json)
    (hordered : ItemsOrdered items) :
    (allInItems [] position items).Pairwise fun host later => host.place.Ahead later.place := by
  match items with
  | [] => exact List.Pairwise.nil
  | item :: rest =>
    rw [allInItems, allIn_eq_map]
    refine List.pairwise_append.mpr ⟨pairwise_under (pairwise_allIn item hordered.1) _,
      pairwise_allInItems (position + 1) rest hordered.2, ?_⟩
    intro host hhost later hlater
    obtain ⟨inner, -, rfl⟩ := List.mem_map.mp hhost
    obtain ⟨offset, item', inner', -, -, rfl⟩ := mem_allInItems.mp hlater
    exact .inr (.index (by omega) _ _)

end

/-- A host stays at its place when clauses go to a place that it is ahead of. -/
theorem KeptIn.fill? {host : Host} {document filled : Json} (h : host.KeptIn document)
    {clauses : List Json} {place : Pointer} (hahead : host.place.Ahead place)
    (hfill : place.fill? clauses document = some filled) : host.KeptIn filled := by
  obtain ⟨specification, hresolve⟩ := h
  rcases hahead with ⟨inner, hinner, rfl⟩ | happart
  · obtain ⟨found, found', hfound, hfilled, hfound'⟩ := Pointer.fill?_append hinner hfill
    rw [hresolve] at hfound
    cases hfound
    cases inner with
    | nil => exact absurd rfl hinner
    | cons segment rest =>
      cases segment with
      | index position => cases rest <;> cases hfilled
      | key name =>
        obtain ⟨members, member, member', hmembers, hmember, -, rfl⟩ := Pointer.fill?_key hfilled
        cases hmembers
        have hname : name = host.label.key := by
          refine Decidable.byContradiction fun hne => ?_
          rw [List.lookup_cons, beq_false_of_ne hne] at hmember
          cases hmember
        refine ⟨member', hfound'.trans ?_⟩
        rw [setMember, if_pos hname, hname]
  · exact ⟨specification, (happart.resolve?_fill? hfill).trans hresolve⟩

variable {sentinel : String}

/-- A host is replaced by the clauses of its specification, which go to its place. -/
theorem exists_fill?_of_step? {host : Host} {document stepped : Json} {count : Nat}
    (h : host.step? sentinel document = some (count, stepped)) :
    ∃ value clauses, host.specificationPlace.resolve? document = some value ∧
      Specification.clauses? sentinel host.label value = some clauses ∧
      host.place.fill? clauses document = some stepped := by
  rw [step?_eq] at h
  simp only [toOption_splice, Option.bind_eq_bind, Option.bind_eq_some_iff, Option.pure_def] at h
  obtain ⟨value, hvalue, clauses, hclauses, document', ⟨found, -, hfill⟩, h⟩ := h
  cases h
  split at hfill
  · exact ⟨value, clauses, hvalue, hclauses, hfill⟩
  · cases hfill

/-- What is kept by replacing each of some hosts is kept by replacing them all. -/
theorem run?_induction {motive : Json → Prop} {hosts : List Host} {document replaced : Json}
    {count : Nat} (h : run? sentinel hosts document = some (count, replaced))
    (hstep : ∀ host ∈ hosts, ∀ document count stepped,
      host.step? sentinel document = some (count, stepped) → motive document → motive stepped)
    (hdocument : motive document) : motive replaced := by
  induction hosts generalizing document count with
  | nil =>
    cases h
    exact hdocument
  | cons host rest ih =>
    simp only [run?, Option.bind_eq_bind, Option.bind_eq_some_iff, Option.pure_def,
      Option.some.injEq, Prod.mk.injEq] at h
    obtain ⟨⟨m, stepped⟩, hfirst, ⟨n, _⟩, hrest, -, rfl⟩ := h
    exact ih hrest (fun other hother => hstep other (List.mem_cons_of_mem _ hother))
      (hstep host List.mem_cons_self document m stepped hfirst hdocument)

variable {hosts : List Host} {document replaced : Json} {count : Nat}

/-- A host stays at its place when hosts that it is ahead of are replaced. -/
theorem KeptIn.run? {host : Host} (h : host.KeptIn document)
    (hahead : ∀ later ∈ hosts, host.place.Ahead later.place)
    (hrun : Host.run? sentinel hosts document = some (count, replaced)) :
    host.KeptIn replaced := by
  refine @run?_induction _ (fun stepped => host.KeptIn stepped) _ _ _ _ hrun
    (fun later hlater before count stepped hstep hkept => ?_) h
  obtain ⟨_, _, -, -, hfill⟩ := exists_fill?_of_step? hstep
  exact hkept.fill? (hahead later hlater) hfill

/-- What stands apart from some hosts is left alone when they are replaced. -/
theorem resolve?_run?_of_apart {place : Pointer} (hapart : ∀ host ∈ hosts, place.Apart host.place)
    (hrun : run? sentinel hosts document = some (count, replaced)) :
    place.resolve? replaced = place.resolve? document := by
  refine @run?_induction _ (fun stepped => place.resolve? stepped = place.resolve? document) _ _ _ _
    hrun (fun host hhost before count stepped hstep heq => ?_) rfl
  obtain ⟨_, _, -, -, hfill⟩ := exists_fill?_of_step? hstep
  exact ((hapart host hhost).resolve?_fill? hfill).trans heq

end Host

end Semijoin
