import Semijoin.Document.Verify
import Semijoin.Proofs.Document.Failure

/-!
# Checking a document and expanding it

Checking reads the specifications of a document from the first to the last, as they stand. Expanding
reads them from the last to the first, out of a document that changes. If no host stands in a
specification, the hosts are apart from each other, and both read the same. Main statement: the two
then agree, except that only an expansion finds joins that nest too deep.
-/

namespace Semijoin

open Json

namespace Host

variable {sentinel : String} {document : Json}

/-- A host stands in the specification of a host. -/
def StandsIn (inner outer : Host) : Prop := outer.specificationPlace <+: inner.place

instance (inner outer : Host) : Decidable (inner.StandsIn outer) :=
  inferInstanceAs (Decidable (outer.specificationPlace <+: inner.place))

/-- Everything strictly inside a host stands in its specification. -/
theorem KeptIn.standsIn {inner outer : Host} (houter : outer.KeptIn document)
    (hinner : inner.KeptIn document) {rest : Pointer} (hrest : rest ≠ [])
    (hplace : inner.place = outer.place ++ rest) : inner.StandsIn outer := by
  obtain ⟨outerValue, houter⟩ := houter
  obtain ⟨innerValue, hinner⟩ := hinner
  rw [hplace, Pointer.resolve?_append, houter] at hinner
  obtain ⟨segment, others, rfl⟩ := List.exists_cons_of_ne_nil hrest
  cases segment with
  | index position => cases hinner
  | key name =>
    have hname : name = outer.label.key := by
      refine Decidable.byContradiction fun hne => ?_
      change [(outer.label.key, outerValue)].lookup name >>= Pointer.resolve? others = _ at hinner
      rw [List.lookup_cons, beq_false_of_ne hne] at hinner
      cases hinner
    refine ⟨others, ?_⟩
    rw [hplace, hname, specificationPlace, Pointer.key, List.append_assoc]
    rfl

/-- If no host stands in a specification, the hosts are apart from each other. -/
theorem pairwise_apart (hordered : document.IsOrdered)
    (hflat : ∀ outer ∈ allIn [] document, ∀ inner ∈ allIn [] document, ¬ inner.StandsIn outer) :
    (allIn [] document).Pairwise fun host later => host.place.Apart later.place := by
  refine (pairwise_allIn document hordered).imp_of_mem fun hhost hlater hahead => ?_
  rcases hahead with ⟨rest, hrest, hplace⟩ | happart
  · have hkept := keptIn_of_mem_allIn document hordered hhost
    have hinner := keptIn_of_mem_allIn document hordered hlater
    exact absurd (hkept.standsIn hinner hrest hplace) (hflat _ hhost _ hlater)
  · exact happart

/-- A host is read as before when hosts that it is apart from have been replaced. -/
theorem readIn_run? {host : Host} {hosts : List Host} {replaced : Json} {count : Nat}
    (hapart : ∀ later ∈ hosts, host.place.Apart later.place)
    (hrun : run? sentinel hosts document = some (count, replaced)) :
    host.readIn replaced = host.readIn document := by
  have hresolve : host.specificationPlace.resolve? replaced =
      host.specificationPlace.resolve? document :=
    resolve?_run?_of_apart (fun later hlater => (hapart later hlater).append _) hrun
  rw [readIn, readIn, hresolve]

/-- Checks one host: its specification can be read, and it has no clauses for the focus. -/
def check (document : Json) (host : Host) : Except Fault Unit := do
  let specification ← host.readIn document
  specification.checkFocus

/-- A host that can be replaced passes the check. -/
theorem check_eq_ok_of_step? {host : Host} {stepped : Nat × Json}
    (h : host.step? sentinel document = some stepped) : host.check document = .ok () := by
  have hexpand := eq_ok_of_toOption h
  obtain ⟨specification, hread, hexpand⟩ := Traced.bind_eq_ok hexpand
  obtain ⟨clauses, hcompile, -⟩ := Traced.bind_eq_ok hexpand
  obtain ⟨rest, hresult, -⟩ := specification.exists_result_compile sentinel
  rw [hresult] at hcompile
  obtain ⟨_, -, hcompile⟩ := bind_eq_ok hcompile
  obtain ⟨_, hfocus, -⟩ := bind_eq_ok hcompile
  change host.readIn document = .ok specification at hread
  rw [check, hread]
  exact hfocus

/-- If the specification of a host passes the check and is then not compiled, joins nest too deep
in it. -/
theorem tooDeep_of_check {host : Host} (hcheck : host.check document = .ok ()) {fault : Fault}
    (hfault : (host.readIn document >>= fun specification =>
      (specification.compile sentinel).result) = .error fault) : fault.TooDeep := by
  obtain ⟨specification, hread, hfocus⟩ := bind_eq_ok hcheck
  rw [hread] at hfault
  have hchecked : specification.check = .ok () := by
    unfold readIn at hread
    split at hread
    · exact Specification.check_eq_ok_of_read hread
    · cases hread
  obtain ⟨rest, hresult, hrest⟩ := specification.exists_result_compile sentinel
  change (specification.compile sentinel).result = .error fault at hfault
  rw [hresult, hchecked] at hfault
  change (specification.checkFocus >>= fun _ => rest) = .error fault at hfault
  rw [hfocus] at hfault
  exact hrest hchecked fault hfault

end Host

namespace Document

variable {sentinel : String} {document : Json}

/-- Checking hosts is checking each, and counting them by their labels. -/
theorem verifyHosts_eq (document : Json) (report : Report) (hosts : List Host) :
    verifyHosts document report hosts = (hosts.forM fun host => host.check document) >>= fun _ =>
      .ok ⟨report.graphs + hosts.countP (·.label = .joinSet),
        report.chains + hosts.countP (·.label = .joinSequence), report.clauses⟩ := by
  induction hosts generalizing report with
  | nil => rfl
  | cons host rest ih =>
    change (host.readIn document >>= fun specification => specification.checkFocus >>= fun _ =>
      verifyHosts document (report.count host.label 0) rest) =
      (host.check document >>= fun _ => rest.forM fun host => host.check document) >>= _
    rw [Host.check, bind_assoc, bind_assoc]
    simp only [ih]
    cases hlabel : host.label <;> simp [Report.count, hlabel, Nat.add_assoc, Nat.add_comm 1]

/-- If the hosts are apart from each other and the document expands, each passes the check. -/
theorem check_eq_ok_of_run? {hosts : List Host}
    (hapart : hosts.Pairwise fun host later => host.place.Apart later.place)
    {replaced : Json} {count : Nat}
    (hrun : Host.run? sentinel hosts.reverse document = some (count, replaced)) :
    ∀ host ∈ hosts, host.check document = .ok () := by
  intro host hmem
  obtain ⟨before, after, rfl⟩ := List.append_of_mem hmem
  rw [List.reverse_append, List.reverse_cons, List.append_assoc, Host.run?_append] at hrun
  obtain ⟨⟨m, stepped⟩, hafter, hrun⟩ := Option.bind_eq_some_iff.mp hrun
  obtain ⟨⟨n, _⟩, hrest, -⟩ := Option.bind_eq_some_iff.mp hrun
  obtain ⟨_, hstep, -⟩ := Option.bind_eq_some_iff.mp hrest
  have hlater := (List.pairwise_cons.mp (List.pairwise_append.mp hapart).2.1).1
  have hread := Host.readIn_run? (fun later h => hlater later (List.mem_reverse.mp h)) hafter
  have hcheck := Host.check_eq_ok_of_step? hstep
  rwa [Host.check, hread] at hcheck

/-- No host of a document stands in the specification of a host. -/
def Flat (document : Json) : Prop :=
  ∀ hosts, Host.locate Label.all document = .ok hosts →
    ∀ outer ∈ hosts, ∀ inner ∈ hosts, ¬ inner.StandsIn outer

/-- **Checking a document and expanding it.** Let no host of a document stand in the specification
of a host. If the check fails, so does the expansion. If the check succeeds, the expansion either
counts the same specifications by their labels, or fails because joins nest too deep. Every
document that has been read is ordered. -/
theorem expand_agrees_with_verify (sentinel : String) (hordered : document.IsOrdered)
    (hflat : Flat document) :
    match verify document with
    | .error _ => ∃ fault, (expand sentinel document).outcome.result = .error fault
    | .ok report =>
      (∃ clauses, (expand sentinel document).outcome.result = .ok { report with clauses }) ∨
      ∃ place, (expand sentinel document).outcome.result = .error (.malformed .tooDeep place) ∧
        Malformation.tooDeep.reason = "joins may not nest more than 128 levels deep" := by
  cases hlocate : Host.locate Label.all document with
  | error fault =>
    have hverify : verify document = .error fault := by
      rw [verify, hlocate]
      rfl
    rw [hverify]
    exact ⟨fault, by simp only [expand, hlocate]; rfl⟩
  | ok hosts =>
    obtain rfl := eq_allIn_of_locate hlocate
    have hapart := Host.pairwise_apart hordered (hflat _ hlocate)
    have hverify : verify document = verifyHosts document .empty (Host.allIn [] document) := by
      rw [verify, hlocate]
      rfl
    rw [hverify, verifyHosts_eq]
    cases hexpand : (expand sentinel document).outcome.result with
    | ok report =>
      obtain ⟨count, hrun, rfl⟩ := exists_run?_of_expand_eq_ok sentinel hlocate hexpand
      rw [forM_eq_ok_iff.mpr (check_eq_ok_of_run? hapart hrun)]
      refine .inl ⟨count, ?_⟩
      simp [Report.empty]
    | error fault =>
      cases hchecks : (Host.allIn [] document).forM fun host => host.check document with
      | error found => exact ⟨fault, rfl⟩
      | ok checked =>
        obtain ⟨before, host, after, count, hsplit, hrun, hstays, hhost⟩ :=
          exists_run?_of_expand_eq_error hordered hlocate hexpand
        rw [hsplit] at hapart hchecks
        have hlater := (List.pairwise_cons.mp (List.pairwise_append.mp hapart).2.1).1
        have hread := Host.readIn_run? (fun later h => hlater later (List.mem_reverse.mp h)) hrun
        have hcheck := forM_eq_ok_iff.mp hchecks host (List.mem_append_right _ List.mem_cons_self)
        rw [Host.check, ← hread, ← Host.check] at hcheck
        obtain ⟨place, rfl⟩ := Host.tooDeep_of_check hcheck
          ((hstays host (List.mem_append_right _ List.mem_cons_self)).compile_eq_error hhost)
        exact .inr ⟨place, rfl, rfl⟩

/-- A host with a graph beside a host with a chain. -/
def besideHosts : Json :=
  .object [
    ("around", .object [("join_set", .object [
      ("focus", .string "a"),
      ("queries", .object [("b", .array [.object [("exists", .string "x")]])]),
      ("relations", .array [.array [
        .object [("indices", .string "a"), ("path", .string "to_b")],
        .object [("indices", .string "b"), ("path", .string "id")]]])])]),
    ("onward", relationHost [("indices", .string "c"), ("path", .string "id")]
      [("indices", .string "a"), ("path", .string "to_c")])]

/-- Checking the two hosts and expanding them counts the same specifications. -/
theorem expand_besideHosts :
    verify besideHosts = .ok ⟨1, 1, 0⟩ ∧
      ∃ clauses, (expand ".filterjoin" besideHosts).outcome.result = .ok ⟨1, 1, clauses⟩ := by
  have hordered : besideHosts.IsOrdered := by decide +kernel
  have hflat : Flat besideHosts := by
    intro hosts hlocate
    rw [eq_allIn_of_locate hlocate]
    decide +kernel
  have hverify : verify besideHosts = .ok ⟨1, 1, 0⟩ := by decide +kernel
  have hagrees := expand_agrees_with_verify ".filterjoin" hordered hflat
  rw [hverify] at hagrees
  rcases hagrees with hexpand | ⟨place, hfault, -⟩
  · exact ⟨hverify, hexpand⟩
  · have hexpand : (expand ".filterjoin" besideHosts).outcome.result = .ok ⟨1, 1, 2⟩ := by
      decide +kernel
    rw [hexpand] at hfault
    cases hfault

end Document

end Semijoin
