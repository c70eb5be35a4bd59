import Semijoin.Document.Expand
import Semijoin.Json.Reader
import Semijoin.Json.Writer
import Semijoin.Text.Blank

/-!
# Multi-search bodies

A multi-search body has one JSON document on a line. Headers and searches alternate, and
blank lines do not count. Headers are kept as they are, searches are expanded.
-/

namespace Semijoin

namespace Multisearch

/-- A line that is not blank, without the blanks at its ends, and its number. -/
structure Line where
  number : Nat
  text : List Char
  deriving DecidableEq, Repr

/-- Why a body cannot be expanded. -/
inductive Failure where
  | notJson (line : Nat) (fault : ReadFault)
  | loneHeader (line : Nat)
  | faulty (line : Nat) (fault : Fault)
  deriving DecidableEq, Repr

/-- The wording of a failure. -/
def Failure.message : Failure → String
  | .notJson line fault => s!"line {line}: invalid JSON: {fault.message}"
  | .loneHeader line =>
    s!"line {line}: invalid JSON: header line is not followed by a search body"
  | .faulty line fault => s!"line {line}: {fault.message}"

/-- An expanded body (`MsearchRewrite`). -/
structure Body where
  lines : List (List Char)
  searches : Nat
  report : Report
  deriving DecidableEq, Repr

/-- The text of a body: every line ends with a line feed. -/
def Body.text (body : Body) : String :=
  String.ofList (body.lines.flatMap fun line => line ++ ['\n'])

/-- The lines of a body that are not blank. They are numbered from one, blank lines
included. -/
def linesOf (text : List Char) : List Line :=
  ((Text.lines text).zipIdx 1).filterMap fun (line, number) =>
    let text := Text.trim line
    if text.isEmpty then none else some { number, text }

/-- Expands the search on a line. -/
def expandSearch (sentinel : String) (line : Line) : Traced Failure (List Char × Report) := do
  let document ← Traced.ofExcept ((Json.ofChars line.text).mapError (.notJson line.number))
  let expansion := Document.expand sentinel document
  let report ← expansion.outcome.mapFault (.faulty line.number)
  return (expansion.document.chars .compact 0, report)

/-- Expands headers and searches in turn. -/
def expandLines (sentinel : String) : List Line → Traced Failure Body
  | [] => return ⟨[], 0, .empty⟩
  | [header] => Traced.fail (.loneHeader header.number)
  | header :: search :: rest => do
    let (text, report) ← expandSearch sentinel search
    let others ← expandLines sentinel rest
    return {
      lines := header.text :: text :: others.lines
      searches := others.searches + 1
      report := report.merge others.report }

/-- Expands the searches of a body (`rewrite_msearch`). -/
def expand (sentinel : String) (text : String) : Traced Failure Body := do
  let body ← expandLines sentinel (linesOf text.toList)
  Traced.report (.bodyExpanded body.searches body.report.specifications)
  return body

end Multisearch

end Semijoin
