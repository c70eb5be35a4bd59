import Semijoin.Document.Splice
import Semijoin.Report

/-!
# Expanding the specifications of a document

Every specification in a document is compiled, and its clauses take the place of its
host. Hosts are handled from the last to the first, so that a specification inside
another one is compiled before it, and the places of the hosts still to come stay valid.
A failure leaves the document as it is at that moment.
-/

namespace Semijoin

/-- A document whose specifications have been expanded, up to the failure if there was
one. -/
structure Expansion where
  document : Json
  outcome : Compilation Report

/-- Compiles the specification of a host and puts its clauses in the place of the host.
The number of the clauses stands before the document. -/
def Host.expand (host : Host) (sentinel : String) (document : Json) :
    Compilation (Nat × Json) := do
  let specification ← Traced.ofExcept (host.readIn document)
  let clauses ← specification.compile sentinel
  let document ← Traced.ofExcept (host.splice clauses document)
  return (clauses.length, document)

namespace Document

/-- Expands hosts in the given order. -/
def expandHosts (sentinel : String) (report : Report) (document : Json) :
    List Host → Expansion
  | [] => ⟨document, return report⟩
  | host :: rest =>
    let step := host.expand sentinel document
    match step.result with
    | .error fault => ⟨document, step.events, .error fault⟩
    | .ok (clauses, document) =>
      let others := expandHosts sentinel (report.count host.label clauses) document rest
      ⟨others.document, step.events ++ others.outcome.events, others.outcome.result⟩

/-- Reports an expansion that had something to do. -/
def reportExpanded (report : Report) : Compilation Report := do
  if 0 < report.specifications then
    Traced.report (.documentExpanded report.graphs report.chains report.clauses)
  return report

/-- Expands every specification in a document (`compile_document`). -/
def expand (sentinel : String) (document : Json) : Expansion :=
  match Host.locate Label.all document with
  | .error fault => ⟨document, Traced.fail fault⟩
  | .ok hosts =>
    let expansion := expandHosts sentinel .empty document hosts.reverse
    ⟨expansion.document, expansion.outcome >>= reportExpanded⟩

end Document

end Semijoin
