import Semijoin.Proofs.Document.Checking
import Semijoin.Proofs.Document.Turn
import Semijoin.Proofs.Fault.Graphs
import Semijoin.Proofs.Specification.Plain

/-!
# False alarms

Checking takes every specification as it stands in the document, with others still inside it. An
expansion takes it after these have been replaced. So a document may expand and fail its check.
Main statement: this happens exactly if a specification stands in another one where that is read
and is not one of its clauses, or where no clause may be.
-/

namespace Semijoin

open Json

/-- A graph has no clauses for its focus. -/
def Json.FocusBare (graph : Json) : Prop :=
  ∀ focus queries, graph.member? "focus" = some (.string focus) →
    graph.member? "queries" = some (.object queries) → queries.lookup focus = none

namespace Graph

variable {place : Pointer}

/-- Clauses by index are read for the indices that are given. -/
theorem lookup_of_mapM_readAll {byIndex : List (String × Json)}
    {queries : List (String × List Clause)}
    (h : (byIndex.mapM fun (index, clauses) => do
      return (index, ← Clause.readAll (place.key index) clauses) :
        Except Fault (List (String × List Clause))) = .ok queries) (index : String) :
    queries.lookup index = none ↔ byIndex.lookup index = none := by
  induction byIndex generalizing queries with
  | nil =>
    cases h
    exact iff_of_true rfl rfl
  | cons entry rest ih =>
    obtain ⟨name, clauses⟩ := entry
    rw [List.mapM_cons] at h
    obtain ⟨first, hfirst, h⟩ := bind_eq_ok h
    obtain ⟨others, hothers, h⟩ := bind_eq_ok h
    obtain ⟨found, -, hfirst⟩ := bind_eq_ok hfirst
    cases hfirst
    cases h
    rw [List.lookup_cons, List.lookup_cons]
    by_cases hname : index = name
    · rw [beq_iff_eq.mpr hname]
      exact iff_of_false nofun nofun
    · rw [beq_false_of_ne hname]
      exact ih hothers

/-- The clauses of an index are read if there are clauses by index and this is one of them. -/
theorem lookup_eq_none_iff_of_readQueries {members : List (String × Json)}
    {queries : List (String × List Clause)} (h : readQueries members place = .ok queries)
    (index : String) :
    queries.lookup index = none ↔
      ∀ byIndex, members.lookup "queries" = some (.object byIndex) →
        byIndex.lookup index = none := by
  unfold readQueries at h
  split at h
  · rename_i hfind
    cases h
    refine iff_of_true rfl fun byIndex hlookup => ?_
    rw [Field.find?, hlookup] at hfind
    cases hfind
  · rename_i byIndex hfind
    have hlookup := (Field.lookup_of_find? hfind).1
    rw [lookup_of_mapM_readAll h]
    constructor
    · intro hnone found hfound
      cases hlookup.symm.trans hfound
      exact hnone
    · exact fun hall => hall byIndex hlookup
  · cases h

/-- A graph that is read has no clauses for its focus exactly if its text has none. -/
theorem checkFocus_eq_ok_iff {value : Json} {graph : Graph} (h : read place value = .ok graph) :
    graph.checkFocus = .ok () ↔ value.FocusBare := by
  obtain ⟨members, rfl, hfocus, -, hqueries, -⟩ := read_eq_ok_iff.mp h
  have hname := lookup_of_readFocus hfocus
  rw [checkFocus_eq_ok_iff_lookup, lookup_eq_none_iff_of_readQueries hqueries]
  constructor
  · intro hall focus byIndex hfocus hlookup
    cases hname.symm.trans hfocus
    exact hall byIndex hlookup
  · exact fun hbare byIndex hlookup => hbare graph.focus byIndex hname hlookup

end Graph

/-- A graph has clauses for its focus exactly if it has them when it has been rewritten. -/
theorem Json.IsGraph.focusBare {graph rewritten : Json} {sentinel : String}
    (hrewrites : RewritesTo sentinel graph rewritten) (h : rewritten.IsGraph)
    (hbare : rewritten.FocusBare) : graph.FocusBare := by
  cases h with
  | @object members' focus _ hfocus _ _ hqueries =>
    obtain ⟨members, count, rfl, hmembers⟩ := hrewrites.exists_members
    intro name byIndex hname hlookup
    cases (lookup_eq_string hmembers hfocus).symm.trans hname
    rcases lookup_membersImage? hmembers "queries" with ⟨hnone, -⟩ | ⟨value, found, hvalue, hfound,
      hrewritten⟩
    · cases hnone.symm.trans hlookup
    · cases hvalue.symm.trans hlookup
      rcases hqueries found hfound with rfl | ⟨byIndex', rfl, -⟩
      · cases hrewritten.eq_of_isScalar ⟨nofun, nofun⟩
      · obtain ⟨_, n, ⟨⟩, hentries⟩ := hrewritten.exists_members
        exact lookup_eq_none_of_rewritten hentries (hbare focus byIndex' hfocus hfound)

/-- What stands under a label has the form of the label, and a graph has no clauses for its
focus. -/
def Label.Passes (label : Label) (value : Json) : Prop :=
  label.Form value ∧ (label = .joinSet → value.FocusBare)

/-- A specification is read and passes the check of its focus exactly if its text does. -/
theorem Specification.read_bind_checkFocus_iff (label : Label) (place : Pointer) (value : Json) :
    (read label place value >>= checkFocus) = .ok () ↔ label.Passes value := by
  cases label with
  | joinSet =>
    constructor
    · intro h
      obtain ⟨specification, hread, hfocus⟩ := bind_eq_ok h
      obtain ⟨graph, hgraph, hread⟩ := bind_eq_ok hread
      cases hread
      exact ⟨Graph.exists_read_iff.mp ⟨graph, hgraph⟩,
        fun _ => (Graph.checkFocus_eq_ok_iff hgraph).mp hfocus⟩
    · rintro ⟨hform, hbare⟩
      obtain ⟨graph, hgraph⟩ := (@Graph.exists_read_iff place value).mpr hform
      have hread : read .joinSet place value = .ok (.graph graph) := by
        rw [read, hgraph]
        rfl
      rw [hread]
      exact (Graph.checkFocus_eq_ok_iff hgraph).mpr (hbare rfl)
  | joinSequence =>
    constructor
    · intro h
      obtain ⟨specification, hread, -⟩ := bind_eq_ok h
      obtain ⟨chain, hchain, -⟩ := bind_eq_ok hread
      exact ⟨Chain.exists_read_iff.mp ⟨chain, hchain⟩, fun hlabel => by cases hlabel⟩
    · rintro ⟨hform, -⟩
      obtain ⟨chain, hchain⟩ := (@Chain.exists_read_iff place value).mpr hform
      have hread : read .joinSequence place value = .ok (.chain chain) := by
        rw [read, hchain]
        rfl
      rw [hread]
      rfl

/-- What passes once it has been rewritten passes before exactly if it is plain. -/
theorem Label.passes_iff_plain {label : Label} {sentinel : String} {value rewritten : Json}
    (hrewrites : RewritesTo sentinel value rewritten) (h : label.Passes rewritten) :
    label.Passes value ↔ label.Plain value := by
  rw [← label.form_iff_plain hrewrites h.1]
  refine ⟨And.left, fun hform => ⟨hform, ?_⟩⟩
  rintro rfl
  exact Json.IsGraph.focusBare hrewrites h.1 (h.2 rfl)

namespace Host

variable {sentinel : String} {document : Json} {host : Host}

/-- A host passes the check exactly if its specification does. -/
theorem check_eq_ok_iff {written : Json}
    (hwritten : host.specificationPlace.resolve? document = some written) :
    host.check document = .ok () ↔ host.label.Passes written := by
  rw [check, readIn, hwritten]
  exact Specification.read_bind_checkFocus_iff _ _ _

/-- In a document that expands, a host passes the check exactly if its specification is plain. -/
theorem check_eq_ok_iff_plain (hordered : document.IsOrdered) {replaced : Json} {count : Nat}
    (hrun : run? sentinel (allIn [] document).reverse document = some (count, replaced))
    (hmem : host ∈ allIn [] document) {written : Json}
    (hwritten : host.specificationPlace.resolve? document = some written) :
    host.check document = .ok () ↔ host.label.Plain written := by
  obtain ⟨before, after, hall⟩ := List.append_of_mem hmem
  rw [hall, List.reverse_append, List.reverse_cons, List.append_assoc, run?_append] at hrun
  obtain ⟨⟨m, standing⟩, hafter, hrun⟩ := Option.bind_eq_some_iff.mp hrun
  obtain ⟨⟨n, _⟩, hrest, -⟩ := Option.bind_eq_some_iff.mp hrun
  obtain ⟨_, hstep, -⟩ := Option.bind_eq_some_iff.mp hrest
  obtain ⟨found, rewritten, k, hfound, hrewrite, hstanding⟩ :=
    exists_rewritten_at_turn hordered hall hafter
  cases hfound.symm.trans hwritten
  have hpasses := (check_eq_ok_iff hstanding).mp (check_eq_ok_of_step? hstep)
  rw [check_eq_ok_iff hwritten]
  exact Label.passes_iff_plain ⟨k, hrewrite⟩ hpasses

end Host

namespace Document

/-- Every specification in a document is plain: no other one stands in it where it is read, except
among its clauses. -/
def Plain (document : Json) : Prop :=
  ∀ host ∈ Host.allIn [] document, ∀ written,
    host.specificationPlace.resolve? document = some written → host.label.Plain written

/-- **When a check gives a false alarm.** Let a document expand. If no specification in it has
another one where it is read, except among its clauses and there not at the far end of a chain, the
check succeeds and counts the same specifications by their labels. Otherwise the check fails. Every
document that has been read is ordered. -/
theorem verify_of_expand (sentinel : String) {document : Json} (hordered : document.IsOrdered)
    {report : Report} (hexpand : (expand sentinel document).outcome.result = .ok report) :
    (Plain document → verify document = .ok { report with clauses := 0 }) ∧
      (¬ Plain document → ∃ fault, verify document = .error fault) := by
  have huncrowded : document.Uncrowded := by
    by_contra hcrowded
    obtain ⟨label, place, hfault⟩ := expand_of_crowded sentinel hcrowded
    rw [hfault] at hexpand
    cases hexpand
  have hlocate := locate_eq huncrowded
  obtain ⟨count, hrun, rfl⟩ := exists_run?_of_expand_eq_ok sentinel hlocate hexpand
  have hchecks : ((Host.allIn [] document).forM fun host => host.check document) = .ok () ↔
      Plain document := by
    rw [forM_eq_ok_iff]
    refine forall₂_congr fun host hmem => ?_
    obtain ⟨value, hkept⟩ := Host.keptIn_of_mem_allIn document hordered hmem
    have hvalue := Host.resolve?_specificationPlace hkept
    rw [Host.check_eq_ok_iff_plain hordered hrun hmem hvalue]
    refine ⟨fun hplain written hwritten => ?_, fun hall => hall value hvalue⟩
    cases hvalue.symm.trans hwritten
    exact hplain
  have hverify : verify document =
      ((Host.allIn [] document).forM fun host => host.check document) >>= fun _ =>
        .ok ⟨(Host.allIn [] document).countP (·.label = .joinSet),
          (Host.allIn [] document).countP (·.label = .joinSequence), 0⟩ := by
    rw [verify, hlocate]
    exact (verifyHosts_eq document .empty _).trans (by simp [Report.empty])
  rw [hverify]
  constructor
  · intro hplain
    rw [hchecks.mpr hplain]
    rfl
  · intro hplain
    cases hoks : (Host.allIn [] document).forM fun host => host.check document with
    | ok _ => exact absurd (hchecks.mp hoks) hplain
    | error fault => exact ⟨fault, rfl⟩

/-- A document with a host among the clauses of another one expands, and its check succeeds. -/
theorem verify_nestedHosts :
    Plain nestedHosts ∧ verify nestedHosts = .ok ⟨0, 2, 0⟩ := by
  have hordered : nestedHosts.IsOrdered := by decide +kernel
  have hexpand : (expand ".filterjoin" nestedHosts).outcome.result = .ok ⟨0, 2, 2⟩ := by
    decide +kernel
  obtain ⟨hsucceeds, hfails⟩ := verify_of_expand ".filterjoin" hordered hexpand
  have hplain : Plain nestedHosts := by
    by_contra hcrossed
    obtain ⟨fault, hfault⟩ := hfails hcrossed
    have hverify : verify nestedHosts = .ok ⟨0, 2, 0⟩ := by decide +kernel
    rw [hverify] at hfault
    cases hfault
  exact ⟨hplain, hsucceeds hplain⟩

/-- A host with another one at the far end of its chain, where no clause may be. The other one has
no relations, so no clauses take its place. -/
def silentHost : Json :=
  relationHost [("indices", .string "a"), ("path", .string "id")]
    [("indices", .string "b"), ("path", .string "fk"), ("queries", .array
      [.object [("join_set", .object [("focus", .string "b"), ("relations", .array [])])]])]

/-- It expands, and its check gives a false alarm. -/
theorem verify_silentHost :
    silentHost.IsOrdered ∧ (expand ".filterjoin" silentHost).outcome.result = .ok ⟨1, 1, 1⟩ ∧
      verify silentHost = .error (.rootQueries [.key "join_sequence", .index 0, .key "relation",
        .index 1]) := by
  refine ⟨by decide +kernel, by decide +kernel, by decide +kernel⟩

end Document

end Semijoin
