import Semijoin.Proofs.Document.Checking
import Semijoin.Proofs.Document.Ordering
import Semijoin.Proofs.Fault.Chains
import Semijoin.Proofs.Fault.Graphs

/-!
# The faults of documents

A document is refused for what it shows. Checking finds its faults in the document as it was given,
and expanding finds them in the document as it is left, where the specifications inside another one
have been replaced and the elements behind them have moved.
-/

namespace Semijoin

open Json

variable {document : Json} {place : Pointer} {value : Json}

section Specifications

variable {sentinel : String} {label : Label}

/-- A fault in reading a specification is shown. -/
theorem Specification.shownIn_read (hordered : document.IsOrdered)
    (hstands : (Part.ofLabel label).StandsAt document place value) :
    FaultsAre (Fault.ShownIn document) (read label place value) := by
  cases label with
  | joinSet => exact .bind (Graph.shownIn_read hordered hstands) fun _ _ => .pure _
  | joinSequence => exact .bind (Chain.shownIn_read hordered hstands) fun _ _ => .pure _

/-- Clauses for the focus of a specification are a fault without a place. -/
theorem Specification.shownIn_checkFocus (specification : Specification) :
    FaultsAre (Fault.ShownIn document) specification.checkFocus := by
  cases specification with
  | graph graph => exact graph.shownIn_checkFocus
  | chain chain => exact .ok ()

/-- A fault in compiling a specification that has been read is shown. -/
theorem Specification.shownIn_compile {specification : Specification}
    (hstands : (Part.ofLabel label).StandsAt document place value)
    (hread : read label place value = .ok specification) :
    FaultsAre (Fault.ShownIn document) (specification.compile sentinel).result := by
  cases label with
  | joinSet =>
    obtain ⟨graph, hgraph, hread⟩ := bind_eq_ok hread
    cases hread
    exact Graph.shownIn_compile hstands hgraph
  | joinSequence =>
    obtain ⟨chain, hchain, hread⟩ := bind_eq_ok hread
    cases hread
    exact Chain.shownIn_compile hstands hchain

end Specifications

namespace Host

/-- In an object that has a key and not only this one, there is another key. -/
theorem exists_other_key {members : List (String × Json)} (hkeys : KeysOrdered members)
    {key : String} (hkey : key ∈ members.map Prod.fst) (hlength : members.length ≠ 1) :
    ∃ other ∈ members.map Prod.fst, other ≠ key := by
  match members with
  | [] => cases hkey
  | [_] => exact absurd rfl hlength
  | first :: second :: rest =>
    have hlt : first.1 < second.1 := (List.pairwise_cons.mp hkeys).1 second List.mem_cons_self
    by_cases hfirst : first.1 = key
    · refine ⟨second.1, List.mem_cons_of_mem _ List.mem_cons_self, ?_⟩
      rintro rfl
      rw [hfirst] at hlt
      exact String.lt_irrefl _ hlt
    · exact ⟨first.1, List.mem_cons_self, hfirst⟩

/-- An object that is refused as a host has the label and another key. -/
theorem shownIn_atObject (hordered : document.IsOrdered) (labels : List Label)
    {members : List (String × Json)} (hplace : place.resolve? document = some (.object members)) :
    FaultsAre (Fault.ShownIn document) (atObject labels place members) := by
  refine .mapM fun label hlabel => ?_
  split
  · exact .pure _
  · rename_i hlength
    obtain ⟨found, hlookup⟩ := Option.isSome_iff_exists.mp (List.mem_filter.mp hlabel).2
    have hkey : label.key ∈ members.map Prod.fst := by
      obtain ⟨before, after, rfl, -⟩ := List.lookup_eq_some_iff.mp hlookup
      simp
    have hkeys : KeysOrdered members := (hordered.resolve? hplace).1
    refine .throw (Fault.shownIn_of rfl hplace ?_)
    exact ⟨members, rfl, hkey, exists_other_key hkeys hkey hlength⟩

mutual

/-- A fault in finding the hosts in a value is shown. -/
theorem shownIn_inValue (hordered : document.IsOrdered) (labels : List Label) (place : Pointer)
    (value : Json) (hplace : place.resolve? document = some value) :
    FaultsAre (Fault.ShownIn document) (inValue labels place value) := by
  cases value with
  | object members =>
    rw [inValue]
    refine .bind (shownIn_atObject hordered labels hplace) fun _ _ => ?_
    exact .bind (shownIn_inMembers hordered labels place members hplace members fun _ => id)
      fun _ _ => .pure _
  | array items =>
    exact shownIn_inItems hordered labels place items hplace 0 items List.drop_zero
  | null | bool _ | number _ | string _ => exact .pure []

/-- A fault in finding the hosts in some members of an object is shown. -/
theorem shownIn_inMembers (hordered : document.IsOrdered) (labels : List Label) (place : Pointer)
    (all : List (String × Json)) (hplace : place.resolve? document = some (.object all))
    (members : List (String × Json)) (hmembers : ∀ member ∈ members, member ∈ all) :
    FaultsAre (Fault.ShownIn document) (inMembers labels place members) := by
  match members with
  | [] => exact .pure []
  | (key, value) :: rest =>
    obtain ⟨hmember, hrest⟩ := List.forall_mem_cons.mp hmembers
    have hkeys : KeysOrdered all := (hordered.resolve? hplace).1
    have hresolve := Pointer.resolve?_key hplace (hkeys.lookup_of_mem hmember)
    rw [inMembers]
    refine .bind (shownIn_inValue hordered labels (place.key key) value hresolve) fun _ _ => ?_
    exact .bind (shownIn_inMembers hordered labels place all hplace rest hrest)
      fun _ _ => .pure _

/-- A fault in finding the hosts in the elements of an array, from a position on, is shown. -/
theorem shownIn_inItems (hordered : document.IsOrdered) (labels : List Label) (place : Pointer)
    (all : List Json) (hplace : place.resolve? document = some (.array all)) (position : Nat)
    (items : List Json) (hitems : all.drop position = items) :
    FaultsAre (Fault.ShownIn document) (inItems labels place position items) := by
  match items with
  | [] => exact .pure []
  | item :: rest =>
    obtain ⟨hitem, hrest⟩ := getElem?_of_drop_eq_cons hitems
    have hresolve := Pointer.resolve?_index hplace hitem
    rw [inItems]
    refine .bind (shownIn_inValue hordered labels (place.index position) item hresolve)
      fun _ _ => ?_
    exact .bind (shownIn_inItems hordered labels place all hplace (position + 1) rest hrest)
      fun _ _ => .pure _

end

/-- A fault in finding the hosts in a document is shown. -/
theorem shownIn_locate (hordered : document.IsOrdered) (labels : List Label) :
    FaultsAre (Fault.ShownIn document) (locate labels document) :=
  shownIn_inValue hordered labels Pointer.root document rfl

/-- The specification of a host that is in a document is read as what stands under its label. -/
theorem KeptIn.exists_standsAt {host : Host} (h : host.KeptIn document) :
    ∃ value, (Part.ofLabel host.label).StandsAt document host.specificationPlace value ∧
      host.readIn document = Specification.read host.label host.specificationPlace value := by
  obtain ⟨value, hhost⟩ := h
  refine ⟨value, .specification hhost, ?_⟩
  rw [readIn, resolve?_specificationPlace hhost]

/-- A fault in checking a host that is in a document is shown. -/
theorem KeptIn.shownIn_check {host : Host} (h : host.KeptIn document)
    (hordered : document.IsOrdered) :
    FaultsAre (Fault.ShownIn document) (host.check document) := by
  obtain ⟨value, hstands, hread⟩ := h.exists_standsAt
  rw [check, hread]
  exact .bind (Specification.shownIn_read hordered hstands)
    fun specification _ => specification.shownIn_checkFocus

/-- A fault in expanding a host that is in a document is shown. -/
theorem KeptIn.shownIn_expand {sentinel : String} {host : Host} (h : host.KeptIn document)
    (hordered : document.IsOrdered) :
    FaultsAre (Fault.ShownIn document) (host.expand sentinel document).result := by
  intro fault hfault
  have hcompile := h.compile_eq_error hfault
  obtain ⟨value, hstands, hread⟩ := h.exists_standsAt
  rw [hread] at hcompile
  have hall : FaultsAre (Fault.ShownIn document)
      (Specification.read host.label host.specificationPlace value >>= fun specification =>
        (specification.compile sentinel).result) :=
    .bind (Specification.shownIn_read hordered hstands)
      fun specification hspecification => Specification.shownIn_compile hstands hspecification
  exact hall fault hcompile

end Host

namespace Document

/-- A fault in checking a document is shown. -/
theorem shownIn_verify (hordered : document.IsOrdered) :
    FaultsAre (Fault.ShownIn document) (verify document) := by
  refine .bind (Host.shownIn_locate hordered Label.all) fun hosts hlocate => ?_
  rw [verifyHosts_eq]
  refine .bind (.forM fun host hhost => ?_) fun _ _ => .ok _
  rw [eq_allIn_of_locate hlocate] at hhost
  exact (Host.keptIn_of_mem_allIn document hordered hhost).shownIn_check hordered

/-- **Faults are where they are told to be.** Every fault that tells a place is shown by the value
that stands there, in the document itself if it has been checked, and in the document as it is left
if it has been expanded. Every document that has been read is ordered. -/
theorem faults_shown (sentinel : String) (hordered : document.IsOrdered) :
    (∀ fault, verify document = .error fault → fault.ShownIn document) ∧
      ∀ fault, (expand sentinel document).outcome.result = .error fault →
        fault.ShownIn (expand sentinel document).document := by
  refine ⟨shownIn_verify hordered, fun fault hfault => ?_⟩
  cases hlocate : Host.locate Label.all document with
  | error located =>
    simp only [expand, hlocate] at hfault ⊢
    cases hfault
    exact Host.shownIn_locate hordered Label.all fault hlocate
  | ok hosts =>
    obtain ⟨before, host, after, count, -, hrun, hstays, hhost⟩ :=
      exists_run?_of_expand_eq_error hordered hlocate hfault
    have hkept := hstays host (List.mem_append_right _ List.mem_cons_self)
    exact hkept.shownIn_expand (Host.isOrdered_of_run? hordered hrun) fault hhost

/-- The only relation of a chain has no path at its far end. In front of it stands a graph that
joins nothing. -/
def shiftedStep : Json :=
  .object [("join_sequence", .array [
    .object [("join_set", .object [("focus", .string "a"), ("relations", .array [])])],
    .object [("relation", .array [
      .object [("indices", .string "b"), ("path", .string "id")],
      .object [("indices", .string "a")]])]])]

/-- The check finds a step that is no relation, and the expansion, after the graph has been replaced
by no clauses, an endpoint without a path in the first step. -/
theorem faults_shown_shiftedStep :
    ∃ checked expanded, verify shiftedStep = .error (.missingField "relation" checked) ∧
      (expand ".filterjoin" shiftedStep).outcome.result = .error (.missingField "path" expanded) ∧
      checked.text = "/join_sequence/0" ∧ expanded.text = "/join_sequence/0/relation/1" ∧
      (Fault.missingField "relation" checked).ShownIn shiftedStep ∧
      (Fault.missingField "path" expanded).ShownIn (expand ".filterjoin" shiftedStep).document := by
  have hordered : shiftedStep.IsOrdered := by decide +kernel
  have hverify : verify shiftedStep =
      .error (.missingField "relation" [.key "join_sequence", .index 0]) := by
    decide +kernel
  have hexpand : (expand ".filterjoin" shiftedStep).outcome.result =
      .error (.missingField "path"
        [.key "join_sequence", .index 0, .key "relation", .index 1]) := by
    decide +kernel
  have hshown := faults_shown ".filterjoin" hordered
  exact ⟨_, _, hverify, hexpand, by decide +kernel, by decide +kernel, hshown.1 _ hverify,
    hshown.2 _ hexpand⟩

end Document

end Semijoin
