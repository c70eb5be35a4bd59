import Semijoin.Proofs.Document.Expansion
import Semijoin.Proofs.Document.Preorder
import Semijoin.Proofs.Specification.Faults

/-!
# Where an expansion fails

Hosts are replaced from the last to the first, and each is ahead of those after it. So an expansion
that fails has replaced the hosts after some host and left this one and those before it where they
were. It fails because of the specification that is then under the label of this host: what happens
to the document itself cannot fail once its hosts have been located.
-/

namespace Semijoin

open Json

namespace Pointer

/-- No place is apart from itself. -/
theorem Apart.irrefl : (place : Pointer) → ¬ Apart place place
  | _ :: _, .key hne _ _ => hne rfl
  | _ :: _, .index hlt _ _ => Nat.lt_irrefl _ hlt
  | _ :: rest, .inside _ h => irrefl rest h

/-- A place that is ahead of a place is a different one. -/
theorem Ahead.ne {p q : Pointer} (h : Ahead p q) : p ≠ q := by
  rintro rfl
  rcases h with ⟨inner, hinner, heq⟩ | happart
  · exact hinner (List.append_cancel_left (heq.symm.trans (List.append_nil p).symm))
  · exact happart.irrefl

end Pointer

namespace Host

variable {sentinel : String}

/-- Of hosts that are ahead of those after them, the last ones are at places of their own. -/
theorem among_append_right {before after : List Host}
    (h : (before ++ after).Pairwise fun host later => host.place.Ahead later.place) :
    among (· ∈ after.map Host.place) (before ++ after) = after := by
  have hbefore : among (· ∈ after.map Host.place) before = [] := by
    refine List.filter_eq_nil_iff.mpr fun host hhost hchosen => ?_
    obtain ⟨later, hlater, hplace⟩ := List.mem_map.mp (of_decide_eq_true hchosen)
    exact ((List.pairwise_append.mp h).2.2 host hhost later hlater).ne hplace.symm
  have hafter : among (· ∈ after.map Host.place) after = after :=
    List.filter_eq_self.mpr fun host hhost => decide_eq_true (List.mem_map_of_mem hhost)
  rw [among_append, hbefore, hafter, List.nil_append]

variable {host : Host} {document : Json}

/-- Replacing the last hosts of a document rewrites it at their places. -/
theorem rewriteWhere?_of_run? (hordered : document.IsOrdered) {before after : List Host}
    (hall : allIn [] document = before ++ after) {replaced : Json} {count : Nat}
    (hrun : run? sentinel after.reverse document = some (count, replaced)) :
    document.rewriteWhere? sentinel (· ∈ after.map Host.place) = some (replaced, count) := by
  have hahead := pairwise_allIn document hordered
  have hrewrite := run?_among sentinel hordered (· ∈ after.map Host.place)
  rw [hall] at hahead hrewrite
  rw [among_append_right hahead, hrun] at hrewrite
  obtain ⟨rewritten, hrewritten, heq⟩ := Option.map_eq_some_iff.mp hrewrite.symm
  cases heq
  exact hrewritten

/-- The specification of a host is under its label. -/
theorem resolve?_specificationPlace {value : Json}
    (h : host.place.resolve? document = some (.object [(host.label.key, value)])) :
    host.specificationPlace.resolve? document = some value := by
  rw [specificationPlace, Pointer.key, Pointer.resolve?_append, h]
  simp [Pointer.resolve?]

/-- A host that is in a document has its specification there. -/
theorem KeptIn.readIn_eq (h : host.KeptIn document) :
    ∃ value, host.specificationPlace.resolve? document = some value ∧
      host.readIn document = Specification.read host.label host.specificationPlace value := by
  obtain ⟨value, hresolve⟩ := h
  have hvalue := resolve?_specificationPlace hresolve
  exact ⟨value, hvalue, by rw [readIn, hvalue]⟩

/-- Clauses can take the place of a host that is in a document. -/
theorem KeptIn.exists_splice (h : host.KeptIn document) (clauses : List Json) :
    ∃ spliced, host.splice clauses document = .ok spliced := by
  obtain ⟨value, hresolve⟩ := h
  obtain ⟨spliced, hfill⟩ : ∃ spliced, host.place.fill? clauses document = some spliced :=
    Pointer.exists_fill?_of_resolve? hresolve
  refine ⟨spliced, ?_⟩
  simp only [splice, hresolve, holds, hfill, decide_true, if_true]
  rfl

/-- If a host that is in a document cannot be expanded, then because its specification cannot be
read or compiled. -/
theorem KeptIn.compile_eq_error (h : host.KeptIn document) {fault : Fault}
    (hfault : (host.expand sentinel document).result = .error fault) :
    (host.readIn document >>= fun specification => (specification.compile sentinel).result) =
      .error fault := by
  simp only [expand, Traced.result_bind, Traced.ofExcept] at hfault
  rcases bind_eq_error hfault with hfault | ⟨specification, hspecification, hfault⟩
  · rw [hfault]
    rfl
  · rw [hspecification]
    rcases bind_eq_error hfault with hfault | ⟨clauses, -, hfault⟩
    · exact hfault
    · obtain ⟨spliced, hsplice⟩ := h.exists_splice clauses
      rw [hsplice] at hfault
      cases hfault

end Host

namespace Document

variable {sentinel : String}

/-- An expansion of hosts that fails has replaced the hosts before one that cannot be expanded. -/
theorem exists_of_expandHosts_eq_error {hosts : List Host} {report : Report} {document : Json}
    {fault : Fault}
    (h : (expandHosts sentinel report document hosts).outcome.result = .error fault) :
    ∃ done host rest count, hosts = done ++ host :: rest ∧
      Host.run? sentinel done document =
        some (count, (expandHosts sentinel report document hosts).document) ∧
      (host.expand sentinel (expandHosts sentinel report document hosts).document).result =
        .error fault := by
  induction hosts generalizing report document with
  | nil => cases h
  | cons host rest ih =>
    cases hexpand : (host.expand sentinel document).result with
    | error found =>
      simp only [expandHosts, hexpand] at h ⊢
      cases h
      exact ⟨[], host, rest, 0, rfl, rfl, hexpand⟩
    | ok stepped =>
      simp only [expandHosts, hexpand] at h ⊢
      obtain ⟨done, failing, others, count, rfl, hrun, hfault⟩ := ih h
      refine ⟨host :: done, failing, others, stepped.1 + count, rfl, ?_, hfault⟩
      have hstep : host.step? sentinel document = some stepped := by
        rw [Host.step?, hexpand]
        rfl
      simp only [Host.run?, hstep, Option.bind_eq_bind, Option.bind_some, hrun]
      rfl

/-- Expanding the hosts of a document fails with the fault that expanding the document fails
with. -/
theorem expandHosts_of_expand_eq_error {document : Json} {hosts : List Host}
    (hlocate : Host.locate Label.all document = .ok hosts) {fault : Fault}
    (hfault : (expand sentinel document).outcome.result = .error fault) :
    (expandHosts sentinel .empty document hosts.reverse).document =
        (expand sentinel document).document ∧
      (expandHosts sentinel .empty document hosts.reverse).outcome.result = .error fault := by
  simp only [expand, hlocate, Traced.result_bind] at hfault ⊢
  refine ⟨trivial, ?_⟩
  rcases bind_eq_error hfault with hfault | ⟨report, -, hfault⟩
  · exact hfault
  · rw [result_reportExpanded] at hfault
    cases hfault

/-- An expansion that fails has replaced the hosts after one that cannot be expanded, and this one
and those before it have stayed. -/
theorem exists_run?_of_expand_eq_error {document : Json} (hordered : document.IsOrdered)
    {hosts : List Host} (hlocate : Host.locate Label.all document = .ok hosts) {fault : Fault}
    (hfault : (expand sentinel document).outcome.result = .error fault) :
    ∃ before host after count, hosts = before ++ host :: after ∧
      Host.run? sentinel after.reverse document =
        some (count, (expand sentinel document).document) ∧
      (∀ kept ∈ before ++ [host], kept.KeptIn (expand sentinel document).document) ∧
      (host.expand sentinel (expand sentinel document).document).result = .error fault := by
  have hall := eq_allIn_of_locate hlocate
  obtain ⟨hdocument, hhosts⟩ := expandHosts_of_expand_eq_error hlocate hfault
  obtain ⟨done, host, rest, count, hsplit, hrun, hhost⟩ := exists_of_expandHosts_eq_error hhosts
  rw [hdocument] at hrun hhost
  have hsplit : hosts = (rest.reverse ++ [host]) ++ done.reverse := by
    rw [← List.reverse_reverse hosts, hsplit]
    simp
  have hahead := Host.pairwise_allIn document hordered
  rw [← hall, hsplit] at hahead
  have hstays (kept : Host) (hmem : kept ∈ rest.reverse ++ [host]) :
      kept.KeptIn (expand sentinel document).document := by
    have hkept : kept.KeptIn document := by
      refine Host.keptIn_of_mem_allIn document hordered ?_
      rw [← hall, hsplit]
      exact List.mem_append_left _ hmem
    refine hkept.run? (fun later hlater => ?_) hrun
    exact (List.pairwise_append.mp hahead).2.2 kept hmem later (List.mem_reverse.mpr hlater)
  refine ⟨rest.reverse, host, done.reverse, count, ?_, ?_, hstays, hhost⟩
  · rw [hsplit, List.append_assoc, List.singleton_append]
  · rwa [List.reverse_reverse]

/-- **Where an expansion fails.** If the hosts of a document cannot be located, it is left as it is.
Otherwise one of its hosts fails. The hosts after it have been replaced as in a rewriting of the
whole document, and nothing else has changed; this host and those before it are still where they
were located, each the only member of its object. The fault is the one that reading and then
compiling what is now under the label of the host gives, so it is never that a host is crowded or
missing. Every document that has been read is ordered. -/
theorem exists_host_of_expand_eq_error {document : Json} (hordered : document.IsOrdered)
    {fault : Fault} (hfault : (expand sentinel document).outcome.result = .error fault) :
    match Host.locate Label.all document with
    | .error located => fault = located ∧ (expand sentinel document).document = document
    | .ok hosts => ∃ before host after count value, hosts = before ++ host :: after ∧
        document.rewriteWhere? sentinel (· ∈ after.map Host.place) =
          some ((expand sentinel document).document, count) ∧
        (∀ kept ∈ before ++ [host], kept.KeptIn (expand sentinel document).document) ∧
        host.specificationPlace.resolve? (expand sentinel document).document = some value ∧
        (Specification.read host.label host.specificationPlace value >>= fun specification =>
          (specification.compile sentinel).result) = .error fault ∧
        (∀ label place, fault ≠ .crowdedHost label place) ∧
        ∀ label place, fault ≠ .malformed (.hostMissing label) place := by
  cases hlocate : Host.locate Label.all document with
  | error located =>
    simp only [expand, hlocate] at hfault ⊢
    exact ⟨(Except.error.inj hfault).symm, trivial⟩
  | ok hosts =>
    have hall := eq_allIn_of_locate hlocate
    obtain ⟨before, host, after, count, rfl, hrun, hstays, hhost⟩ :=
      exists_run?_of_expand_eq_error hordered hlocate hfault
    rw [List.append_cons] at hall
    have hrewritten := Host.rewriteWhere?_of_run? hordered hall.symm hrun
    have hkept := hstays host (List.mem_append_right _ List.mem_cons_self)
    obtain ⟨value, hvalue, hread⟩ := hkept.readIn_eq
    have hcompile := hkept.compile_eq_error hhost
    rw [hread] at hcompile
    have hinside : fault.Inside := by
      refine FaultsAre.bind (Specification.faultsAre_read _ _ _) (fun specification _ => ?_) _
        hcompile
      exact specification.faultsAre_compile sentinel
    refine ⟨before, host, after, count, value, rfl, hrewritten, hstays, hvalue, hcompile, ?_, ?_⟩
    · rintro label place rfl
      exact hinside
    · rintro label place rfl
      exact hinside

/-- A host without a path stands between two others and has one of its own inside. -/
def pathlessHosts : Json :=
  .array [
    relationHost [("indices", .string "b"), ("path", .string "id")]
      [("indices", .string "a"), ("path", .string "to_b")],
    relationHost
      [("indices", .string "b"), ("path", .string "id"), ("queries", .array [relationHost
        [("indices", .string "c"), ("path", .string "id")]
        [("indices", .string "b"), ("path", .string "to_c")]])]
      [("indices", .string "a")],
    relationHost [("indices", .string "d"), ("path", .string "id")]
      [("indices", .string "a"), ("path", .string "to_d")]]

/-- The two hosts after the one without a path have been replaced, and the first one has not. -/
theorem expand_pathlessHosts :
    (expand ".filterjoin" pathlessHosts).outcome.result = .error (.missingField "path"
      [.index 1, .key "join_sequence", .index 0, .key "relation", .index 1]) ∧
    (expand ".filterjoin" pathlessHosts).document = .array [
      relationHost [("indices", .string "b"), ("path", .string "id")]
        [("indices", .string "a"), ("path", .string "to_b")],
      relationHost
        [("indices", .string "b"), ("path", .string "id"), ("queries", .array
          [(Join.resolved "to_c" (Endpoint.ofIndex "c" "id").toTarget []).toJson])]
        [("indices", .string "a")],
      (Join.resolved "to_d" (Endpoint.ofIndex "d" "id").toTarget []).toJson] ∧
    ∃ before host after, Host.locate Label.all pathlessHosts = .ok (before ++ host :: after) ∧
      ∀ kept ∈ before ++ [host], kept.KeptIn (expand ".filterjoin" pathlessHosts).document := by
  have hordered : pathlessHosts.IsOrdered := by decide +kernel
  have hfault : (expand ".filterjoin" pathlessHosts).outcome.result = .error (.missingField "path"
      [.index 1, .key "join_sequence", .index 0, .key "relation", .index 1]) := by
    decide +kernel
  have hlocate : Host.locate Label.all pathlessHosts = .ok (Host.allIn [] pathlessHosts) :=
    locate_eq (by decide +kernel)
  refine ⟨hfault, by decide +kernel, ?_⟩
  have hhost := exists_host_of_expand_eq_error hordered hfault
  rw [hlocate] at hhost
  obtain ⟨before, host, after, _, _, hhosts, -, hkept, -⟩ := hhost
  exact ⟨before, host, after, hlocate.trans (congrArg Except.ok hhosts), hkept⟩

end Document

end Semijoin
