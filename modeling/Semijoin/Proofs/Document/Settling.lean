import Semijoin.Proofs.Document.Turn
import Semijoin.Proofs.Document.Settled
import Semijoin.Proofs.Specification.Carrying

/-!
# No specification is left

A specification is read after everything in it has been rewritten. So its clauses are settled, and
with them what the rewriting of a value gives: the labels in it are the sources of joins that the
rewriting has emitted. Main statement: if no such source is a label, there is nothing left to
expand.
-/

namespace Semijoin

open Json

/-- The rewriting of a value emits a join: after it has been rewritten, the specification of some
host is compiled to joins, and this is one of them or nested in one of them. -/
def Json.Emits (sentinel : String) (value : Json) (join : Join) : Prop :=
  ∃ (host : Host) (written rewritten : Json) (count : Nat) (specification : Specification)
    (joins : List (Join × Bool)) (outer : Join × Bool),
    host ∈ Host.allIn [] value ∧ host.specificationPlace.resolve? value = some written ∧
    written.rewrite? sentinel = some (rewritten, count) ∧
    Specification.read host.label Pointer.root rewritten = .ok specification ∧
    (specification.joins sentinel).result = .ok joins ∧ outer ∈ joins ∧ join.Within outer.1

/-- The values in an image are settled. -/
def Image.Settled (emitted : Join → Prop) : Image → Prop
  | .value v => v.Settled emitted
  | .clauses cs => ∀ clause ∈ cs, clause.Settled emitted

namespace Image

variable {emitted : Join → Prop}

/-- A settled image is a settled value. -/
theorem Settled.asValue {image : Image} (h : image.Settled emitted) :
    image.asValue.Settled emitted := by
  cases image with
  | value value => exact h
  | clauses clauses => exact .array h

/-- A settled image puts settled elements into an array. -/
theorem Settled.asItems {image : Image} (h : image.Settled emitted) :
    ∀ item ∈ image.asItems, item.Settled emitted := by
  cases image with
  | value value => exact List.forall_mem_singleton.mpr h
  | clauses clauses => exact h

end Image

namespace Json

variable {sentinel : String} {emitted : Join → Prop}

/-- What is emitted for a part of a value is emitted for the value. -/
theorem Emits.of_part {value part : Json} {join : Join} (h : part.Emits sentinel join)
    (base : Pointer) (hpart : base.resolve? value = some part) : value.Emits sentinel join := by
  obtain ⟨host, written, rewritten, count, specification, joins, outer, hhost, hwritten, hrest⟩ := h
  refine ⟨host.under base, written, rewritten, count, specification, joins, outer,
    Host.under_mem_allIn hpart hhost, ?_, hrest⟩
  have happend := Pointer.resolve?_append base host.specificationPlace value
  rw [hpart] at happend
  refine Eq.trans ?_ (happend.trans hwritten)
  rw [Host.specificationPlace, Host.specificationPlace, Pointer.key, Pointer.key,
    ← List.append_assoc]
  rfl

/-- No key of an object is a label if it is neither a host nor crowded. -/
theorem label_notMem_keys {members members' : List (String × Json)}
    (huncrowded : ∀ label ∈ Label.all, (members.lookup label.key).isSome → members.length = 1)
    (hkeys : members'.map Prod.fst = members.map Prod.fst) (hhosted : hosted? members' = none) :
    ∀ label ∈ Label.all, label.key ∉ members'.map Prod.fst := by
  intro label hlabel hmem
  obtain ⟨member, hmember, hkey⟩ := List.mem_map.mp (hkeys ▸ hmem)
  have hfound : (members.lookup label.key).isSome := by
    refine Option.isSome_iff_ne_none.mpr fun hnone => ?_
    have hne := List.lookup_eq_none_iff.mp hnone _ hmember
    exact bne_iff_ne.mp hne hkey.symm
  have hlength : members'.length = 1 := by
    rw [← List.length_map Prod.fst, hkeys, List.length_map]
    exact huncrowded label hlabel hfound
  obtain ⟨⟨name, value⟩, rfl⟩ := List.length_eq_one_iff.mp hlength
  have hname : label.key = name := List.mem_singleton.mp hmem
  rw [hosted?_eq_some_iff.mpr (by rw [hname])] at hhosted
  cases hhosted

/-- A host in which the specification has been rewritten was a host with the specification before
that. -/
theorem exists_written_of_membersImage? {members : List (String × Json)} {key : String}
    {rewritten : Json} {count : Nat}
    (h : membersImage? sentinel members = some ([(key, rewritten)], count)) :
    ∃ written n, members = [(key, written)] ∧ written.rewrite? sentinel = some (rewritten, n) := by
  have hlength := congrArg List.length (keys_membersImage? h)
  rw [List.length_map, List.length_map] at hlength
  obtain ⟨⟨name, written⟩, rfl⟩ := List.length_eq_one_iff.mp hlength.symm
  rw [membersImage?] at h
  obtain ⟨⟨image, n⟩, himage, h⟩ := Option.bind_eq_some_iff.mp h
  cases h
  exact ⟨written, n, rfl, Option.map_eq_some_iff.mpr ⟨(image, n), himage, rfl⟩⟩

mutual

/-- The rewriting of a value that has no crowded object leaves it settled. -/
theorem settled_of_image? : (value : Json) → value.IsOrdered → value.Uncrowded →
    (∀ join, value.Emits sentinel join → emitted join) → ∀ {image : Image} {count : Nat},
    image? sentinel value = some (image, count) → image.Settled emitted
  | .array items, hordered, huncrowded, hemits, image, count, h => by
    rw [image?] at h
    obtain ⟨⟨items', m⟩, hitems, h⟩ := Option.bind_eq_some_iff.mp h
    cases h
    have hitem (item : Json) (hmem : item ∈ items) (join : Join)
        (hjoin : item.Emits sentinel join) : emitted join := by
      obtain ⟨position, hposition⟩ := List.mem_iff_getElem?.mp hmem
      refine hemits join (hjoin.of_part [.index position] ?_)
      simp [Pointer.resolve?, hposition]
    exact .array (settled_of_itemsImage? items hordered huncrowded hitem hitems)
  | .object members, hordered, huncrowded, hemits, image, count, h => by
    rw [image?] at h
    obtain ⟨⟨members', m⟩, hmembers, h⟩ := Option.bind_eq_some_iff.mp h
    have hmember (member : String × Json) (hmem : member ∈ members) (join : Join)
        (hjoin : member.2.Emits sentinel join) : emitted join := by
      refine hemits join (hjoin.of_part [.key member.1] ?_)
      simp [Pointer.resolve?, hordered.1.lookup_of_mem hmem]
    have hsettled := settled_of_membersImage? members hordered.2 huncrowded.2 hmember hmembers
    dsimp only at h
    cases hhosted : hosted? members' with
    | none =>
      rw [hhosted] at h
      cases h
      exact .object (label_notMem_keys huncrowded.1 (keys_membersImage? hmembers) hhosted) hsettled
    | some found =>
      obtain ⟨label, rewritten⟩ := found
      rw [hhosted] at h
      obtain ⟨clauses, hclauses, h⟩ := Option.bind_eq_some_iff.mp h
      cases h
      rw [hosted?_eq_some_iff.mp hhosted] at hmembers hsettled
      obtain ⟨written, n, rfl, hrewrite⟩ := exists_written_of_membersImage? hmembers
      obtain ⟨specification, joins, hread, hjoins, rfl⟩ :=
        Specification.exists_joins_of_clauses? hclauses
      have hcarries := Specification.carries_of_joins passesDown_settled
        (.whole (hsettled _ List.mem_cons_self)) hread hjoins
      refine Join.settled_clauses (fun outer houter join hwithin => hemits join ?_) hcarries
      have hhost : ⟨label, []⟩ ∈ Host.allIn [] (.object [(label.key, written)]) := by
        simp [Host.allIn, Host.here, hosted?]
      have hwritten : Pointer.resolve? (Host.specificationPlace ⟨label, []⟩)
          (.object [(label.key, written)]) = some written := Host.resolve?_specificationPlace rfl
      exact ⟨⟨label, []⟩, written, rewritten, n, specification, joins, outer, hhost, hwritten,
        hrewrite, hread, hjoins, houter, hwithin⟩
  | .null, _, _, _, image, count, h => by
    cases h
    exact .null
  | .bool value, _, _, _, image, count, h => by
    cases h
    exact .bool value
  | .number value, _, _, _, image, count, h => by
    cases h
    exact .number value
  | .string value, _, _, _, image, count, h => by
    cases h
    exact .string value

/-- The rewriting of elements leaves them settled. -/
theorem settled_of_itemsImage? : (items : List Json) → ItemsOrdered items →
    ItemsUncrowded items →
    (∀ item ∈ items, ∀ join, item.Emits sentinel join → emitted join) →
    ∀ {items' : List Json} {count : Nat}, itemsImage? sentinel items = some (items', count) →
    ∀ item ∈ items', item.Settled emitted
  | [], _, _, _, items', count, h => by
    cases h
    exact List.forall_mem_nil _
  | item :: rest, hordered, huncrowded, hemits, items', count, h => by
    obtain ⟨hitem, hrest⟩ := List.forall_mem_cons.mp hemits
    rw [itemsImage?] at h
    obtain ⟨⟨first, m⟩, hfirst, h⟩ := Option.bind_eq_some_iff.mp h
    obtain ⟨⟨others, n⟩, hothers, h⟩ := Option.bind_eq_some_iff.mp h
    cases h
    exact List.forall_mem_append.mpr
      ⟨(settled_of_image? item hordered.1 huncrowded.1 hitem hfirst).asItems,
        settled_of_itemsImage? rest hordered.2 huncrowded.2 hrest hothers⟩

/-- The rewriting of members leaves their values settled. -/
theorem settled_of_membersImage? : (members : List (String × Json)) → MembersOrdered members →
    MembersUncrowded members →
    (∀ member ∈ members, ∀ join, member.2.Emits sentinel join → emitted join) →
    ∀ {members' : List (String × Json)} {count : Nat},
    membersImage? sentinel members = some (members', count) →
    ∀ member ∈ members', member.2.Settled emitted
  | [], _, _, _, members', count, h => by
    cases h
    exact List.forall_mem_nil _
  | (key, value) :: rest, hordered, huncrowded, hemits, members', count, h => by
    obtain ⟨hvalue, hrest⟩ := List.forall_mem_cons.mp hemits
    rw [membersImage?] at h
    obtain ⟨⟨first, m⟩, hfirst, h⟩ := Option.bind_eq_some_iff.mp h
    obtain ⟨⟨others, n⟩, hothers, h⟩ := Option.bind_eq_some_iff.mp h
    cases h
    exact List.forall_mem_cons.mpr
      ⟨(settled_of_image? value hordered.1 huncrowded.1 hvalue hfirst).asValue,
        settled_of_membersImage? rest hordered.2 huncrowded.2 hrest hothers⟩

end

end Json

namespace Document

variable {sentinel : String} {document : Json}

/-- The expansion of a document emits a join: when the turn of some host comes, the hosts after it
having been replaced, its specification is compiled to joins, and this is one of them or nested in
one of them. -/
def Emits (sentinel : String) (document : Json) (join : Join) : Prop :=
  ∃ (before : List Host) (host : Host) (after : List Host) (count : Nat) (standing : Json)
    (specification : Specification) (joins : List (Join × Bool)) (outer : Join × Bool),
    Host.locate Label.all document = .ok (before ++ host :: after) ∧
    Host.run? sentinel after.reverse document = some (count, standing) ∧
    host.readIn standing = .ok specification ∧
    (specification.joins sentinel).result = .ok joins ∧ outer ∈ joins ∧ join.Within outer.1

/-- What the rewriting of a document emits is emitted by its expansion. -/
theorem emits_of_rewriting (hordered : document.IsOrdered) {hosts : List Host}
    (hlocate : Host.locate Label.all document = .ok hosts) {replaced : Json} {count : Nat}
    (hrun : Host.run? sentinel hosts.reverse document = some (count, replaced)) {join : Join}
    (h : document.Emits sentinel join) : Emits sentinel document join := by
  obtain ⟨host, written, rewritten, n, specification, joins, outer, hhost, hwritten, hrewrite,
    hread, hjoins, houter, hwithin⟩ := h
  have hall := eq_allIn_of_locate hlocate
  rw [← hall] at hhost
  obtain ⟨before, after, rfl⟩ := List.append_of_mem hhost
  rw [List.reverse_append, List.reverse_cons, List.append_assoc, Host.run?_append] at hrun
  obtain ⟨⟨m, standing⟩, hstanding, -⟩ := Option.bind_eq_some_iff.mp hrun
  obtain ⟨written', rewritten', n', hwritten', hrewrite', hplace⟩ :=
    Host.exists_rewritten_at_turn hordered hall.symm hstanding
  obtain rfl : written = written' := Option.some.inj (hwritten.symm.trans hwritten')
  obtain rfl : rewritten = rewritten' :=
    congrArg Prod.fst (Option.some.inj (hrewrite.symm.trans hrewrite'))
  have hreadIn : host.readIn standing = .ok (specification.under host.specificationPlace) := by
    have hunder :=
      Specification.read_under host.specificationPlace host.label Pointer.root rewritten
    rw [show host.specificationPlace ++ Pointer.root = host.specificationPlace from
      List.append_nil _, hread] at hunder
    rw [Host.readIn, hplace]
    exact hunder
  have hunder := specification.joins_under host.specificationPlace sentinel
  rw [hjoins] at hunder
  exact ⟨before, host, after, m, standing, _, joins, outer, hlocate, hstanding, hreadIn, hunder,
    houter, hwithin⟩

/-- What comes out of a successful expansion is settled. -/
theorem settled_expand (hordered : document.IsOrdered) {report : Report}
    (hexpand : (expand sentinel document).outcome.result = .ok report) :
    (expand sentinel document).document.Settled (Emits sentinel document) := by
  by_cases huncrowded : document.Uncrowded
  · obtain ⟨count, hrun, -⟩ :=
      exists_run?_of_expand_eq_ok sentinel (locate_eq huncrowded) hexpand
    obtain ⟨n, hrewrite⟩ := rewrite?_of_expand sentinel hordered hexpand
    obtain ⟨⟨image, m⟩, himage, heq⟩ := Option.map_eq_some_iff.mp hrewrite
    have hsettled := settled_of_image? document hordered huncrowded
      (fun join => emits_of_rewriting hordered (locate_eq huncrowded) hrun) himage
    have hvalue : image.asValue = (expand sentinel document).document := congrArg Prod.fst heq
    rw [← hvalue]
    exact hsettled.asValue
  · obtain ⟨label, place, hfault⟩ := expand_of_crowded sentinel huncrowded
    rw [hfault] at hexpand
    cases hexpand

/-- **No specification is left.** Where a label is a key in an expanded document, the object stands
directly under the key of a join that the expansion has emitted, has no other key, and the label is
the source of the join. So if no emitted join has a label as its source, the expanded document has
no hosts, and expanding it again succeeds, counts nothing and leaves it as it is. Every document
that has been read is ordered. -/
theorem expand_expand (hordered : document.IsOrdered) {report : Report}
    (hexpand : (expand sentinel document).outcome.result = .ok report) :
    (∀ (place : Pointer) (members : List (String × Json)) (label : Label),
      place.resolve? (expand sentinel document).document = some (.object members) →
      (members.lookup label.key).isSome →
      NamesSource (Emits sentinel document) label (expand sentinel document).document place
        members) ∧
    ((∀ join, Emits sentinel document join → ∀ label ∈ Label.all, join.source ≠ label.key) →
      Host.locate Label.all (expand sentinel document).document = .ok [] ∧
      expand sentinel (expand sentinel document).document =
        ⟨(expand sentinel document).document, pure .empty⟩) := by
  have hsettled := settled_expand hordered hexpand
  refine ⟨fun place members label hplace hlabel => hsettled.namesSource hplace hlabel,
    fun hsources => ?_⟩
  obtain ⟨huncrowded, hnone⟩ := hsettled.uncrowded hsources
  have hlocate := locate_eq huncrowded
  rw [hnone] at hlocate
  refine ⟨hlocate, ?_⟩
  rw [expand, hlocate]
  rfl

/-- A host with a chain of one relation, from a field of the documents being searched. -/
def sourceHost (source : String) : Json :=
  relationHost [("indices", .string "b"), ("path", .string "id")]
    [("indices", .string "a"), ("path", .string source)]

/-- The only join that such a host emits has this field as its source. -/
theorem source_of_emits_sourceHost {join : Join}
    (h : Emits ".filterjoin" (sourceHost "to_b") join) : join.source = "to_b" := by
  obtain ⟨before, host, after, count, standing, specification, joins, outer, hlocate, hrun, hread,
    hjoins, houter, hwithin⟩ := h
  have hhosts : [⟨.joinSequence, []⟩] = before ++ host :: after := Except.ok.inj hlocate
  obtain ⟨rfl, rfl, rfl⟩ : before = [] ∧ host = ⟨.joinSequence, []⟩ ∧ after = [] := by
    cases before with
    | nil =>
      cases hhosts
      exact ⟨rfl, rfl, rfl⟩
    | cons first rest => simp at hhosts
  cases hrun
  cases hread
  cases hjoins
  rw [List.mem_singleton.mp houter] at hwithin
  cases hwithin with
  | self => rfl
  | nested hmem => cases hmem

/-- A field that is named like a label is left as a source, and is not taken for a host where its
join stands. With another field there is nothing left to expand. -/
theorem expand_expand_sourceHost :
    (∃ body, NamesSource (Emits ".filterjoin" (sourceHost "join_set")) .joinSet
      (expand ".filterjoin" (sourceHost "join_set")).document [.index 0, .key "filterjoin"]
      [("join_set", body)]) ∧
    expand ".filterjoin" (expand ".filterjoin" (sourceHost "to_b")).document =
      ⟨(expand ".filterjoin" (sourceHost "to_b")).document, pure .empty⟩ := by
  constructor
  · have hordered : (sourceHost "join_set").IsOrdered := by decide +kernel
    have hexpand : (expand ".filterjoin" (sourceHost "join_set")).outcome.result =
        .ok ⟨0, 1, 1⟩ := by decide +kernel
    have hplace : Pointer.resolve? [.index 0, .key "filterjoin"]
        (expand ".filterjoin" (sourceHost "join_set")).document = some (.object [("join_set",
          (Endpoint.ofIndex "b" "id").toTarget.toJson (Join.query [] [] [] false))]) := by
      decide +kernel
    exact ⟨_, (expand_expand hordered hexpand).1 _ _ .joinSet hplace rfl⟩
  · have hordered : (sourceHost "to_b").IsOrdered := by decide +kernel
    have hexpand : (expand ".filterjoin" (sourceHost "to_b")).outcome.result = .ok ⟨0, 1, 1⟩ := by
      decide +kernel
    refine ((expand_expand hordered hexpand).2 fun join hjoin => ?_).2
    rw [source_of_emits_sourceHost hjoin]
    decide

end Document

end Semijoin
