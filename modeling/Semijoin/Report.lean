import Semijoin.Label

/-!
# Counts of specifications
-/

namespace Semijoin

/-- How many specifications of each form there were, and how many clauses replaced them
(`RewriteReport`). -/
structure Report where
  graphs : Nat
  chains : Nat
  clauses : Nat
  deriving DecidableEq, Repr

namespace Report

/-- Nothing was found. -/
def empty : Report := ⟨0, 0, 0⟩

/-- The number of specifications (`specs`). -/
def specifications (report : Report) : Nat := report.graphs + report.chains

/-- Counts one specification and the clauses that replaced it (`record`). -/
def count (report : Report) (label : Label) (clauses : Nat) : Report :=
  match label with
  | .joinSet => { report with graphs := report.graphs + 1, clauses := report.clauses + clauses }
  | .joinSequence =>
    { report with chains := report.chains + 1, clauses := report.clauses + clauses }

/-- The counts of two documents together. -/
def merge (a b : Report) : Report :=
  ⟨a.graphs + b.graphs, a.chains + b.chains, a.clauses + b.clauses⟩

/-- The numbers of specifications by label. -/
def byLabel (report : Report) : String :=
  s!"join_set={report.graphs} join_sequence={report.chains}"

/-- All counts, by name. -/
def text (report : Report) : String :=
  s!"{report.byLabel} clauses={report.clauses}"

end Report

end Semijoin
