import Semijoin.Document.Host
import Semijoin.Report

/-!
# Checking the specifications of a document

Specifications can be checked without compiling them. Each is taken as it stands in the
document, also one that has another specification inside it.
-/

namespace Semijoin.Document

/-- Checks hosts in order. -/
def verifyHosts (document : Json) (report : Report) : List Host → Except Fault Report
  | [] => return report
  | host :: rest => do
    let specification ← host.readIn document
    specification.checkFocus
    verifyHosts document (report.count host.label 0) rest

/-- Checks every specification in a document (`verify_document`). -/
def verify (document : Json) : Except Fault Report := do
  let hosts ← Host.locate Label.all document
  verifyHosts document .empty hosts

end Semijoin.Document
