import Semijoin.Proofs.Document.Replacement

/-!
# Expansion is rewriting

The expansion of a document, which follows the pointers of its hosts from the last to the first,
gives what rewriting the document from the inside out gives, and fails where that fails.
-/

namespace Semijoin.Document

open Json Host

variable (sentinel : String)

/-- Hosts that can be replaced are counted by their labels. -/
theorem expandHosts_of_run? {hosts : List Host} {document document' : Json} {count : Nat}
    (h : run? sentinel hosts document = some (count, document')) (report : Report) :
    (expandHosts sentinel report document hosts).document = document' ∧
      (expandHosts sentinel report document hosts).outcome.result =
        .ok ⟨report.graphs + hosts.countP (·.label = .joinSet),
          report.chains + hosts.countP (·.label = .joinSequence), report.clauses + count⟩ := by
  induction hosts generalizing document report count with
  | nil =>
    simp only [run?, Option.some.injEq, Prod.mk.injEq] at h
    obtain ⟨rfl, rfl⟩ := h
    exact ⟨rfl, rfl⟩
  | cons host rest ih =>
    simp only [run?, Option.bind_eq_bind, Option.bind_eq_some_iff, Option.pure_def,
      Option.some.injEq, Prod.mk.injEq] at h
    obtain ⟨⟨m, stepped⟩, hstep, ⟨n, _⟩, hrest, rfl, rfl⟩ := h
    have hresult : (host.expand sentinel document).result = .ok (m, stepped) := by
      cases hexpand : (host.expand sentinel document).result <;>
        simp_all [step?, Except.toOption]
    obtain ⟨hdocument, houtcome⟩ := ih hrest (report.count host.label m)
    simp only [expandHosts, hresult]
    refine ⟨hdocument, houtcome.trans ?_⟩
    cases hlabel : host.label <;> simp [Report.count, hlabel] <;> omega

/-- If some host cannot be replaced, the expansion of the hosts fails. -/
theorem expandHosts_of_run?_eq_none {hosts : List Host} {document : Json}
    (h : run? sentinel hosts document = none) (report : Report) :
    ∃ fault, (expandHosts sentinel report document hosts).outcome.result = .error fault := by
  induction hosts generalizing document report with
  | nil => cases h
  | cons host rest ih =>
    cases hexpand : (host.expand sentinel document).result with
    | error fault => exact ⟨fault, by simp only [expandHosts, hexpand]⟩
    | ok stepped =>
      have hrest : run? sentinel rest stepped.2 = none := by
        cases hrest : run? sentinel rest stepped.2 with
        | none => rfl
        | some done => simp [run?, step?, hexpand, hrest, Except.toOption] at h
      obtain ⟨fault, hfault⟩ := ih hrest (report.count host.label stepped.1)
      exact ⟨fault, by simp only [expandHosts, hexpand, hfault]⟩

/-- Reporting an expansion does not change what it counted. -/
theorem result_reportExpanded (report : Report) : (reportExpanded report).result = .ok report := by
  unfold reportExpanded
  split <;> rfl

/-- Replacing all hosts of a document from the last to the first rewrites it. -/
theorem run?_allIn {document : Json} (hordered : document.IsOrdered) :
    run? sentinel (allIn [] document).reverse document =
      (document.rewrite? sentinel).map fun (rewritten, count) => (count, rewritten) := by
  have hrun := run?_among sentinel hordered fun _ => true
  rwa [rewriteWhere?_all, among_all] at hrun

/-- The hosts of a document without crowded objects. -/
theorem locate_eq {document : Json} (huncrowded : document.Uncrowded) :
    Host.locate Label.all document = .ok (allIn [] document) :=
  inValue_eq Pointer.root document huncrowded

/-- What location lists are the hosts of the document. -/
theorem eq_allIn_of_locate {document : Json} {hosts : List Host}
    (h : Host.locate Label.all document = .ok hosts) : hosts = allIn [] document := by
  by_cases huncrowded : document.Uncrowded
  · rw [locate_eq huncrowded] at h
    exact (Except.ok.inj h).symm
  · obtain ⟨label, place, hfault⟩ := inValue_of_crowded Pointer.root document huncrowded
    exact nomatch h.symm.trans hfault

/-- A document that can be rewritten expands to the rewritten one. -/
theorem expand_of_rewrite? {document rewritten : Json} {count : Nat}
    (hordered : document.IsOrdered) (huncrowded : document.Uncrowded)
    (hrewrite : document.rewrite? sentinel = some (rewritten, count)) :
    (expand sentinel document).document = rewritten ∧
      (expand sentinel document).outcome.result =
        .ok ⟨(allIn [] document).countP (·.label = .joinSet),
          (allIn [] document).countP (·.label = .joinSequence), count⟩ := by
  have hrun := run?_allIn sentinel hordered
  rw [hrewrite] at hrun
  obtain ⟨hdocument, houtcome⟩ := expandHosts_of_run? sentinel hrun .empty
  simp only [expand, locate_eq huncrowded, Traced.result_bind]
  refine ⟨hdocument, ?_⟩
  rw [houtcome]
  refine (result_reportExpanded _).trans ?_
  simp [Report.empty, List.countP_reverse]

/-- A document that cannot be rewritten does not expand. -/
theorem expand_of_rewrite?_eq_none {document : Json} (hordered : document.IsOrdered)
    (huncrowded : document.Uncrowded) (hrewrite : document.rewrite? sentinel = none) :
    ∃ fault, (expand sentinel document).outcome.result = .error fault := by
  have hrun := run?_allIn sentinel hordered
  rw [hrewrite] at hrun
  obtain ⟨fault, hfault⟩ := expandHosts_of_run?_eq_none sentinel hrun .empty
  refine ⟨fault, ?_⟩
  simp only [expand, locate_eq huncrowded, Traced.result_bind, hfault]
  rfl

/-- A document with a crowded object is left as it is. -/
theorem expand_of_crowded {document : Json} (hcrowded : ¬ document.Uncrowded) :
    ∃ label place,
      expand sentinel document = ⟨document, Traced.fail (.crowdedHost label place)⟩ := by
  obtain ⟨label, place, hfault⟩ := inValue_of_crowded Pointer.root document hcrowded
  exact ⟨label, place, by simp only [expand, Host.locate, hfault]⟩

/-- What comes out of a successful expansion is the rewritten document. -/
theorem rewrite?_of_expand {document : Json} (hordered : document.IsOrdered) {report : Report}
    (hexpand : (expand sentinel document).outcome.result = .ok report) :
    ∃ count, document.rewrite? sentinel = some ((expand sentinel document).document, count) := by
  by_cases huncrowded : document.Uncrowded
  · cases hrewrite : document.rewrite? sentinel with
    | none =>
      obtain ⟨fault, hfault⟩ := expand_of_rewrite?_eq_none sentinel hordered huncrowded hrewrite
      rw [hfault] at hexpand
      cases hexpand
    | some result =>
      obtain ⟨hdocument, -⟩ := expand_of_rewrite? sentinel hordered huncrowded hrewrite
      exact ⟨result.2, by rw [hdocument]⟩
  · obtain ⟨label, place, hfault⟩ := expand_of_crowded sentinel huncrowded
    rw [hfault] at hexpand
    cases hexpand

/-- A document that expands has had all its hosts replaced, and its report counts them. -/
theorem exists_run?_of_expand_eq_ok {document : Json} {hosts : List Host}
    (hlocate : Host.locate Label.all document = .ok hosts) {report : Report}
    (hexpand : (expand sentinel document).outcome.result = .ok report) :
    ∃ count, run? sentinel hosts.reverse document =
        some (count, (expand sentinel document).document) ∧
      report = ⟨hosts.countP (·.label = .joinSet), hosts.countP (·.label = .joinSequence),
        count⟩ := by
  simp only [expand, hlocate, Traced.result_bind] at hexpand ⊢
  cases hrun : run? sentinel hosts.reverse document with
  | none =>
    obtain ⟨fault, hfault⟩ := expandHosts_of_run?_eq_none sentinel hrun .empty
    rw [hfault] at hexpand
    cases hexpand
  | some replaced =>
    obtain ⟨hdocument, houtcome⟩ := expandHosts_of_run? sentinel hrun .empty
    rw [houtcome] at hexpand
    have hreport := (result_reportExpanded _).symm.trans hexpand
    refine ⟨replaced.1, by rw [hdocument], ?_⟩
    rw [← Except.ok.inj hreport]
    simp [Report.empty, List.countP_reverse]

/-- Expanding a document is rewriting it from the inside out. If no object has a label beside
another key, the expansion succeeds exactly when every specification can be read and compiled
after its own parts have been rewritten, the document is then the rewritten one, and the report
counts the hosts by their labels and the clauses that took their places. A document with a label
beside another key is left as it is. Every document that has been read is ordered. -/
theorem expand_eq_rewrite? {document : Json} (hordered : document.IsOrdered) :
    (document.Uncrowded → ∃ hosts, Host.locate Label.all document = .ok hosts ∧
      match document.rewrite? sentinel with
      | some (rewritten, clauses) =>
        (expand sentinel document).document = rewritten ∧
          (expand sentinel document).outcome.result =
            .ok ⟨hosts.countP (·.label = .joinSet), hosts.countP (·.label = .joinSequence),
              clauses⟩
      | none => ∃ fault, (expand sentinel document).outcome.result = .error fault) ∧
    (¬ document.Uncrowded → ∃ label place,
      expand sentinel document = ⟨document, Traced.fail (.crowdedHost label place)⟩) := by
  constructor
  · intro huncrowded
    refine ⟨allIn [] document, locate_eq huncrowded, ?_⟩
    cases hrewrite : document.rewrite? sentinel with
    | none => exact expand_of_rewrite?_eq_none sentinel hordered huncrowded hrewrite
    | some result => exact expand_of_rewrite? sentinel hordered huncrowded hrewrite
  · exact expand_of_crowded sentinel

/-- A host with a chain of one relation. -/
def relationHost (joined filtered : List (String × Json)) : Json :=
  .object [("join_sequence", .array [.object [("relation",
    .array [.object joined, .object filtered])]])]

/-- An array with a host whose clauses are a host again. -/
def nestedHosts : Json :=
  .array [.null, relationHost
    [("indices", .string "b"), ("path", .string "id"), ("queries", .array [relationHost
      [("indices", .string "c"), ("path", .string "id")]
      [("indices", .string "b"), ("path", .string "to_c")]])]
    [("indices", .string "a"), ("path", .string "to_b")]]

/-- The inner host becomes a clause of the join that the outer host becomes. -/
theorem expand_nestedHosts :
    nestedHosts.IsOrdered ∧ nestedHosts.Uncrowded ∧
      (expand ".filterjoin" nestedHosts).document =
        .array [.null, (Join.resolved "to_b" (Endpoint.ofIndex "b" "id").toTarget
          [.clause (.filter (Join.resolved "to_c" (Endpoint.ofIndex "c" "id").toTarget
            []).toJson) false]).toJson] ∧
      (expand ".filterjoin" nestedHosts).outcome.result = .ok ⟨0, 2, 2⟩ := by
  have hordered : nestedHosts.IsOrdered := by decide +kernel
  have huncrowded : nestedHosts.Uncrowded := by decide +kernel
  have hrewrite : nestedHosts.rewrite? ".filterjoin" =
      some (.array [.null, (Join.resolved "to_b" (Endpoint.ofIndex "b" "id").toTarget
        [.clause (.filter (Join.resolved "to_c" (Endpoint.ofIndex "c" "id").toTarget
          []).toJson) false]).toJson], 2) := by decide +kernel
  obtain ⟨hosts, hlocate, hexpand⟩ := (expand_eq_rewrite? ".filterjoin" hordered).1 huncrowded
  rw [locate_eq huncrowded] at hlocate
  cases hlocate
  rw [hrewrite] at hexpand
  exact ⟨hordered, huncrowded, hexpand⟩

end Semijoin.Document
