import Semijoin.Proofs.Document.Objects
import Semijoin.Proofs.Fault.Documents
import Semijoin.Proofs.Specification.Grammar

/-!
# Searching a document for hosts

The search for the hosts with some labels goes through the objects of a document in preorder. Main
statement: it is refused for the first object that has one of the labels beside another key, and
otherwise finds exactly the objects whose only key is one of the labels, in preorder.
-/

namespace Semijoin

open Json

/-- A list that is gone through with a failure fails at the first element that fails. -/
theorem exists_of_mapM_eq_error {ε α β : Type} {f : α → Except ε β} {values : List α} {fault : ε}
    (h : values.mapM f = .error fault) : ∃ before value after, values = before ++ value :: after ∧
      (∀ earlier ∈ before, ∃ result, f earlier = .ok result) ∧ f value = .error fault := by
  induction values with
  | nil => cases h
  | cons first rest ih =>
    rw [List.mapM_cons] at h
    rcases bind_eq_error h with h | ⟨result, hfirst, h⟩
    · exact ⟨[], first, rest, rfl, nofun, h⟩
    · rcases bind_eq_error h with h | ⟨results, -, h⟩
      · obtain ⟨before, value, after, rfl, hbefore, hvalue⟩ := ih h
        exact ⟨first :: before, value, after, rfl,
          List.forall_mem_cons.mpr ⟨⟨result, hfirst⟩, hbefore⟩, hvalue⟩
      · cases h

/-- A list whose elements succeed one by one is gone through with their results. -/
theorem mapM_eq_ok_of_forall {ε α β : Type} {f : α → Except ε β} {g : α → β} {values : List α}
    (h : ∀ value ∈ values, f value = .ok (g value)) : values.mapM f = .ok (values.map g) := by
  induction values with
  | nil => rfl
  | cons first rest ih =>
    obtain ⟨hfirst, hrest⟩ := List.forall_mem_cons.mp h
    rw [List.mapM_cons, hfirst, ih hrest]
    rfl

namespace Host

mutual

/-- Hosts are looked for object by object. -/
theorem inValue_eq_mapM (labels : List Label) (place : Pointer) (value : Json) :
    inValue labels place value =
      List.flatten <$> (objects place value).mapM fun found => atObject labels found.1 found.2 := by
  cases value with
  | object members =>
    rw [inValue, objects, inMembers_eq_mapM labels place members, List.mapM_cons]
    simp only [bind_map_left, map_bind, map_pure, List.flatten_cons]
  | array items => exact inItems_eq_mapM labels place 0 items
  | null | bool _ | number _ | string _ => rfl

/-- Hosts in the members of an object are looked for object by object. -/
theorem inMembers_eq_mapM (labels : List Label) (place : Pointer)
    (members : List (String × Json)) :
    inMembers labels place members = List.flatten <$>
      (membersObjects place members).mapM fun found => atObject labels found.1 found.2 := by
  match members with
  | [] => rfl
  | (key, value) :: rest =>
    rw [inMembers, membersObjects, inValue_eq_mapM labels (place.key key) value,
      inMembers_eq_mapM labels place rest, List.mapM_append]
    simp only [bind_map_left, map_bind, map_pure, List.flatten_append]

/-- Hosts in the elements of an array are looked for object by object. -/
theorem inItems_eq_mapM (labels : List Label) (place : Pointer) (position : Nat)
    (items : List Json) :
    inItems labels place position items = List.flatten <$>
      (itemsObjects place position items).mapM fun found => atObject labels found.1 found.2 := by
  match items with
  | [] => rfl
  | item :: rest =>
    rw [inItems, itemsObjects, inValue_eq_mapM labels (place.index position) item,
      inItems_eq_mapM labels place (position + 1) rest, List.mapM_append]
    simp only [bind_map_left, map_bind, map_pure, List.flatten_append]

end

variable {labels : List Label} {place : Pointer} {members : List (String × Json)}
  {document : Json}

/-- An object has a label beside another key. -/
def Crowds (label : Label) (members : List (String × Json)) : Prop :=
  label.key ∈ members.map Prod.fst ∧ ∃ other ∈ members.map Prod.fst, other ≠ label.key

/-- The labels that an object has among its keys. -/
def labelsOf (labels : List Label) (members : List (String × Json)) : List Label :=
  labels.filter fun label => (members.lookup label.key).isSome

/-- Something is found under the keys of an object. -/
theorem isSome_lookup_iff {key : String} :
    (members.lookup key).isSome ↔ key ∈ members.map Prod.fst := by
  rw [List.lookup_isSome_iff, List.mem_map]
  constructor
  · rintro ⟨member, hmember, hkey⟩
    exact ⟨member, hmember, (eq_of_beq hkey).symm⟩
  · rintro ⟨member, hmember, rfl⟩
    exact ⟨member, hmember, beq_self_eq_true _⟩

/-- The labels of an object are those among its keys. -/
theorem mem_labelsOf_iff {label : Label} :
    label ∈ labelsOf labels members ↔ label ∈ labels ∧ label.key ∈ members.map Prod.fst := by
  rw [labelsOf, List.mem_filter, isSome_lookup_iff]

/-- An object has a label beside another key if it has a label, and not one key alone. -/
theorem crowds_iff (hkeys : KeysOrdered members) {label : Label} :
    Crowds label members ↔ label.key ∈ members.map Prod.fst ∧ members.length ≠ 1 := by
  refine and_congr_right fun hlabel => ⟨?_, exists_other_key hkeys hlabel⟩
  rintro ⟨other, hother, hne⟩ hlength
  obtain ⟨member, rfl⟩ := List.length_eq_one_iff.mp hlength
  rw [List.map_singleton, List.mem_singleton] at hlabel hother
  exact hne (hother.trans hlabel.symm)

/-- The hosts that an object is which is not crowded: one for each of its labels, if it has one key
alone. -/
def hostsAt (labels : List Label) (found : Pointer × List (String × Json)) : List Host :=
  if found.2.length = 1 then (labelsOf labels found.2).map fun label => ⟨label, found.1⟩ else []

/-- An object with one key alone is no fault. -/
theorem atObject_of_length_eq_one (h : members.length = 1) :
    atObject labels place members = .ok (hostsAt labels (place, members)) := by
  simp only [atObject, hostsAt, if_pos h]
  exact mapM_eq_ok_of_forall fun _ _ => rfl

/-- An object that has no label beside another key is no fault. -/
theorem atObject_eq_hostsAt (hkeys : KeysOrdered members)
    (h : ∀ label ∈ labels, ¬ Crowds label members) :
    atObject labels place members = .ok (hostsAt labels (place, members)) := by
  by_cases hlength : members.length = 1
  · exact atObject_of_length_eq_one hlength
  · have hempty : labelsOf labels members = [] := by
      refine List.eq_nil_iff_forall_not_mem.mpr fun label hlabel => ?_
      obtain ⟨hmem, hkey⟩ := mem_labelsOf_iff.mp hlabel
      exact h label hmem ((crowds_iff hkeys).mpr ⟨hkey, hlength⟩)
    rw [hostsAt, if_neg hlength, atObject, ← labelsOf, hempty]
    rfl

/-- An object that is a fault has a label beside another key. The first of its labels is named. -/
theorem exists_of_atObject_eq_error (hkeys : KeysOrdered members) {fault : Fault}
    (h : atObject labels place members = .error fault) :
    ∃ before label after, labels = before ++ label :: after ∧
      (∀ other ∈ before, other.key ∉ members.map Prod.fst) ∧ Crowds label members ∧
        fault = .crowdedHost label place := by
  by_cases hlength : members.length = 1
  · rw [atObject_of_length_eq_one hlength] at h
    cases h
  · rw [atObject, ← labelsOf] at h
    cases hlabels : labelsOf labels members with
    | nil =>
      rw [hlabels] at h
      cases h
    | cons label others =>
      obtain ⟨before, after, rfl, hbefore, hlabel, -⟩ := List.filter_eq_cons_iff.mp hlabels
      rw [hlabels, List.mapM_cons, if_neg hlength] at h
      cases h
      refine ⟨before, label, after, rfl, fun other hother hkey => ?_, ?_, rfl⟩
      · exact hbefore other hother (isSome_lookup_iff.mpr hkey)
      · exact (crowds_iff hkeys).mpr ⟨isSome_lookup_iff.mp hlabel, hlength⟩

/-- An object is searched without a fault exactly if it has no label beside another key. -/
theorem exists_atObject_eq_ok_iff (hkeys : KeysOrdered members) :
    (∃ hosts, atObject labels place members = .ok hosts) ↔
      ∀ label ∈ labels, ¬ Crowds label members := by
  refine ⟨?_, fun h => ⟨_, atObject_eq_hostsAt hkeys h⟩⟩
  rintro ⟨hosts, hhosts⟩ label hlabel hcrowds
  obtain ⟨hkey, hlength⟩ := (crowds_iff hkeys).mp hcrowds
  obtain ⟨first, others, hfirst⟩ :=
    List.exists_cons_of_ne_nil (List.ne_nil_of_mem (mem_labelsOf_iff.mpr ⟨hlabel, hkey⟩))
  rw [atObject, ← labelsOf, hfirst, List.mapM_cons, if_neg hlength] at hhosts
  cases hhosts

/-- The hosts that an object is are at its place, and their labels are its only key. -/
theorem mem_hostsAt_iff {host : Host} :
    host ∈ hostsAt labels (place, members) ↔
      host.place = place ∧ host.label ∈ labels ∧ ∃ value, members = [(host.label.key, value)] := by
  rw [hostsAt]
  constructor
  · intro h
    split at h
    · rename_i hlength
      obtain ⟨label, hlabel, rfl⟩ := List.mem_map.mp h
      obtain ⟨hmem, hkey⟩ := mem_labelsOf_iff.mp hlabel
      obtain ⟨⟨key, value⟩, rfl⟩ := List.length_eq_one_iff.mp hlength
      rw [List.map_singleton, List.mem_singleton] at hkey
      exact ⟨rfl, hmem, value, by rw [hkey]⟩
    · cases h
  · rintro ⟨rfl, hlabel, value, rfl⟩
    exact List.mem_map.mpr ⟨host.label, mem_labelsOf_iff.mpr ⟨hlabel, by simp⟩, rfl⟩

/-- An object is at most one host if every label is looked for once. -/
theorem pairwise_hostsAt (hdistinct : labels.Nodup) (found : Pointer × List (String × Json))
    (related : Host → Host → Prop) : (hostsAt labels found).Pairwise related := by
  obtain ⟨place, members⟩ := found
  have hnodup : (hostsAt labels (place, members)).Nodup := by
    rw [hostsAt]
    split
    · exact (hdistinct.filter _).map fun a b heq => congrArg Host.label heq
    · exact List.Pairwise.nil
  refine hnodup.imp_of_mem fun {host other} hhost hother hne => absurd ?_ hne
  obtain ⟨label, _⟩ := host
  obtain ⟨label', _⟩ := other
  obtain ⟨rfl, -, value, hmembers⟩ := mem_hostsAt_iff.mp hhost
  obtain ⟨rfl, -, value', hmembers'⟩ := mem_hostsAt_iff.mp hother
  rw [hmembers] at hmembers'
  have hkey : label.key = label'.key := by simpa using congrArg (List.map Prod.fst) hmembers'
  have hlabel : label = label' := by simpa using congrArg Label.ofKey? hkey
  rw [hlabel]

/-- Where the search for some labels is refused: the first object in preorder that has one of them
beside another key, and the first of the labels that this object has. -/
structure RefusedAt (labels : List Label) (document : Json) (label : Label) (place : Pointer) :
    Prop where
  /-- The object has the label beside another key, and none of the labels before it. -/
  crowded : ∃ members before after, place.resolve? document = some (.object members) ∧
    labels = before ++ label :: after ∧ (∀ other ∈ before, other.key ∉ members.map Prod.fst) ∧
    Crowds label members
  /-- No object before it has a label beside another key. -/
  first : ∀ (earlier : Pointer) members, earlier.Before place →
    earlier.resolve? document = some (.object members) → ∀ other ∈ labels, ¬ Crowds other members

/-- What the search for some labels finds if it is not refused. -/
structure Found (labels : List Label) (document : Json) (hosts : List Host) : Prop where
  /-- The hosts are the objects whose only key is one of the labels, each with its label. -/
  mem_iff : ∀ host, host ∈ hosts ↔ host.label ∈ labels ∧ host.KeptIn document
  preorder : hosts.Pairwise fun host later => host.place.Before later.place
  nodup : (hosts.map Host.place).Nodup
  /-- Hosts come before those in their specifications. -/
  inside : ∀ before host after, hosts = before ++ host :: after →
    ∀ inner ∈ hosts, inner.StandsIn host → inner ∈ after
  specification : ∀ host ∈ hosts, ∃ value,
    host.place.resolve? document = some (.object [(host.label.key, value)]) ∧
      host.specificationPlace.resolve? document = some value

/-- The hosts of the objects of a document are what a search has to find. -/
theorem found_flatMap (hordered : document.IsOrdered) (hdistinct : labels.Nodup) :
    Found labels document ((objects [] document).flatMap (hostsAt labels)) := by
  have hpreorder : ((objects [] document).flatMap (hostsAt labels)).Pairwise
      fun host later => host.place.Before later.place := by
    refine List.pairwise_flatMap.mpr ⟨fun found _ => pairwise_hostsAt hdistinct found _,
      (pairwise_objects [] document hordered).imp fun hbefore host hhost later hlater => ?_⟩
    rwa [(mem_hostsAt_iff.mp hhost).1, (mem_hostsAt_iff.mp hlater).1]
  have hmem : ∀ host, host ∈ (objects [] document).flatMap (hostsAt labels) ↔
      host.label ∈ labels ∧ host.KeptIn document := by
    intro host
    rw [List.mem_flatMap]
    constructor
    · rintro ⟨⟨place, members⟩, hfound, hhost⟩
      obtain ⟨rfl, hlabel, value, rfl⟩ := mem_hostsAt_iff.mp hhost
      obtain ⟨_, rfl, hresolve⟩ := (mem_objects_iff [] document hordered).mp hfound
      exact ⟨hlabel, value, hresolve⟩
    · rintro ⟨hlabel, value, hresolve⟩
      exact ⟨(host.place, _), (mem_objects_iff [] document hordered).mpr ⟨_, rfl, hresolve⟩,
        mem_hostsAt_iff.mpr ⟨rfl, hlabel, value, rfl⟩⟩
  refine ⟨hmem, hpreorder, ?_, ?_, ?_⟩
  · exact List.pairwise_map.mpr (hpreorder.imp fun hbefore => hbefore.ne)
  · rintro before host after hsplit inner hinner ⟨rest, hplace⟩
    rw [hsplit] at hpreorder hinner
    have hlater : host.place.Before inner.place := by
      rw [← hplace, specificationPlace, Pointer.key, List.append_assoc]
      exact host.place.before_append (by simp)
    rcases List.mem_append.mp hinner with hbefore | hinner
    · exact absurd hlater
        ((List.pairwise_append.mp hpreorder).2.2 inner hbefore host List.mem_cons_self).asymm
    · rcases List.mem_cons.mp hinner with rfl | hafter
      · exact absurd rfl hlater.ne
      · exact hafter
  · intro host hhost
    obtain ⟨-, value, hresolve⟩ := (hmem host).mp hhost
    exact ⟨value, hresolve, resolve?_specificationPlace hresolve⟩

/-- The members of the objects of an ordered document have their keys in order. -/
theorem keysOrdered_of_mem_objects (hordered : document.IsOrdered)
    {found : Pointer × List (String × Json)} (h : found ∈ objects [] document) :
    KeysOrdered found.2 := by
  obtain ⟨inner, -, hresolve⟩ := (mem_objects_iff [] document hordered).mp h
  exact (hordered.resolve? hresolve).1

/-- A document without crowded objects is searched object by object. -/
theorem locate_eq_flatMap (hordered : document.IsOrdered)
    (h : ∀ found ∈ objects [] document, ∀ label ∈ labels, ¬ Crowds label found.2) :
    locate labels document = .ok ((objects [] document).flatMap (hostsAt labels)) := by
  have hobjects : ((objects [] document).mapM fun found => atObject labels found.1 found.2) =
      .ok ((objects [] document).map (hostsAt labels)) :=
    mapM_eq_ok_of_forall fun found hfound =>
      atObject_eq_hostsAt (keysOrdered_of_mem_objects hordered hfound) (h found hfound)
  rw [locate, Pointer.root, inValue_eq_mapM, hobjects]
  rfl

/-- A document that is searched without a fault has no crowded objects. -/
theorem not_crowds_of_locate_eq_ok (hordered : document.IsOrdered) {hosts : List Host}
    (h : locate labels document = .ok hosts) :
    ∀ found ∈ objects [] document, ∀ label ∈ labels, ¬ Crowds label found.2 := by
  rw [locate, Pointer.root, inValue_eq_mapM, map_eq_pure_bind] at h
  obtain ⟨results, hresults, -⟩ := bind_eq_ok h
  intro found hfound
  have hsearched := (exists_mapM_iff fun _ => Iff.rfl).mp ⟨results, hresults⟩ found hfound
  exact (exists_atObject_eq_ok_iff (keysOrdered_of_mem_objects hordered hfound)).mp hsearched

/-- A document with a crowded object is refused at the first one. -/
theorem refusedAt_of_locate_eq_error (hordered : document.IsOrdered) {fault : Fault}
    (h : locate labels document = .error fault) :
    ∃ label place, fault = .crowdedHost label place ∧ RefusedAt labels document label place := by
  rw [locate, Pointer.root, inValue_eq_mapM, map_eq_pure_bind] at h
  rcases bind_eq_error h with h | ⟨hosts, -, h⟩
  · obtain ⟨before, ⟨place, members⟩, after, hobjects, hbefore, hfault⟩ :=
      exists_of_mapM_eq_error h
    have hfound : (place, members) ∈ objects [] document := by simp [hobjects]
    obtain ⟨_, rfl, hresolve⟩ := (mem_objects_iff [] document hordered).mp hfound
    obtain ⟨labelsBefore, label, labelsAfter, rfl, hlabels, hcrowds, rfl⟩ :=
      exists_of_atObject_eq_error (keysOrdered_of_mem_objects hordered hfound) hfault
    refine ⟨label, _, rfl, ⟨members, _, _, hresolve, rfl, hlabels, hcrowds⟩,
      fun earlier others hearlier hothers => ?_⟩
    have hmem : (earlier, others) ∈ objects [] document :=
      (mem_objects_iff [] document hordered).mpr ⟨earlier, rfl, hothers⟩
    have hpairwise := pairwise_objects [] document hordered
    rw [hobjects] at hmem hpairwise
    -- An object that comes before the refused one has been searched before it.
    have hsearched : (earlier, others) ∈ before := by
      rcases List.mem_append.mp hmem with hmem | hmem
      · exact hmem
      · rcases List.mem_cons.mp hmem with heq | hmem
        · cases heq
          exact absurd rfl hearlier.ne
        · have hlater := List.rel_of_pairwise_cons (List.pairwise_append.mp hpairwise).2.1 hmem
          exact absurd hlater hearlier.asymm
    exact (exists_atObject_eq_ok_iff (hordered.resolve? hothers).1).mp (hbefore _ hsearched)
  · cases h

/-- **Searching a document.** The search for some distinct labels is refused exactly if some object
has one of them beside another key, and then for the first such object. Otherwise it finds the
objects whose only key is one of the labels, in preorder. -/
theorem locate_in_preorder (hordered : document.IsOrdered) (hdistinct : labels.Nodup) :
    ((∃ fault, locate labels document = .error fault) ↔
        ∃ (place : Pointer) (members : List (String × Json)),
          place.resolve? document = some (.object members) ∧
            ∃ label ∈ labels, Crowds label members) ∧
      (∀ fault, locate labels document = .error fault →
        ∃ label place, fault = .crowdedHost label place ∧
          RefusedAt labels document label place) ∧
      ∀ hosts, locate labels document = .ok hosts → Found labels document hosts := by
  refine ⟨⟨?_, ?_⟩, fun fault => refusedAt_of_locate_eq_error hordered, fun hosts hhosts => ?_⟩
  · rintro ⟨fault, hfault⟩
    obtain ⟨label, place, -, ⟨members, _, _, hresolve, rfl, -, hcrowds⟩, -⟩ :=
      refusedAt_of_locate_eq_error hordered hfault
    exact ⟨place, members, hresolve, label, by simp, hcrowds⟩
  · rintro ⟨place, members, hresolve, label, hlabel, hcrowds⟩
    cases hlocate : locate labels document with
    | error fault => exact ⟨fault, rfl⟩
    | ok hosts =>
      have hfound : (place, members) ∈ objects [] document :=
        (mem_objects_iff [] document hordered).mpr ⟨place, rfl, hresolve⟩
      exact absurd hcrowds (not_crowds_of_locate_eq_ok hordered hlocate _ hfound label hlabel)
  · rw [locate_eq_flatMap hordered (not_crowds_of_locate_eq_ok hordered hhosts)] at hhosts
    cases hhosts
    exact found_flatMap hordered hdistinct

/-- An array with a host that has another one in its specification. -/
def innerHost : Json :=
  .array [.null, .object [("join_set", .object [("join_sequence", .array [])])]]

/-- An object with both labels, behind the host in which there is another one. -/
def bothLabels : Json :=
  .object [("a", innerHost), ("b", .object [("join_sequence", .null), ("join_set", .null)])]

/-- The host is found before the one in its specification. The object behind them is refused under
the label that is looked for first. -/
theorem locate_bothLabels :
    innerHost.IsOrdered ∧ bothLabels.IsOrdered ∧ [Label.joinSequence, .joinSet].Nodup ∧
      (locate [.joinSequence, .joinSet] innerHost = .ok [⟨.joinSet, [.index 1]⟩,
          ⟨.joinSequence, [.index 1, .key "join_set"]⟩] ∧
        Found [.joinSequence, .joinSet] innerHost [⟨.joinSet, [.index 1]⟩,
          ⟨.joinSequence, [.index 1, .key "join_set"]⟩]) ∧
      locate [.joinSequence, .joinSet] bothLabels =
          .error (.crowdedHost .joinSequence [.key "b"]) ∧
        RefusedAt [.joinSequence, .joinSet] bothLabels .joinSequence [.key "b"] := by
  have hinner : innerHost.IsOrdered := by decide +kernel
  have hboth : bothLabels.IsOrdered := by decide +kernel
  have hdistinct : [Label.joinSequence, .joinSet].Nodup := by decide
  have hfound : locate [.joinSequence, .joinSet] innerHost = .ok [⟨.joinSet, [.index 1]⟩,
      ⟨.joinSequence, [.index 1, .key "join_set"]⟩] := by decide +kernel
  have hrefused : locate [.joinSequence, .joinSet] bothLabels =
      .error (.crowdedHost .joinSequence [.key "b"]) := by decide +kernel
  obtain ⟨label, place, heq, hrefusedAt⟩ :=
    (locate_in_preorder hboth hdistinct).2.1 _ hrefused
  cases heq
  exact ⟨hinner, hboth, hdistinct,
    ⟨hfound, (locate_in_preorder hinner hdistinct).2.2 _ hfound⟩, hrefused, hrefusedAt⟩

end Host

end Semijoin
