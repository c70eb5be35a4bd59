import Semijoin.Chain.Climb
import Semijoin.Graph.Walk

/-!
# Join specifications

A specification has one of two forms, told apart by the label under which it stands.
-/

namespace Semijoin

/-- A join specification of either form (`JoinSpec`). -/
inductive Specification where
  | graph (graph : Graph)
  | chain (chain : Chain)

namespace Specification

/-- The label of a form. -/
def label : Specification → Label
  | .graph _ => .joinSet
  | .chain _ => .joinSequence

/-- Reads and checks the value under a label. -/
def read (label : Label) (place : Pointer) (value : Json) : Except Fault Specification :=
  match label with
  | .joinSet => return .graph (← Graph.read place value)
  | .joinSequence => return .chain (← Chain.read place value)

/-- The check that belongs to reading. -/
def check : Specification → Except Fault Unit
  | .graph g => g.check
  | .chain c => c.check

/-- The check that is left to compilation but needs no compilation. -/
def checkFocus : Specification → Except Fault Unit
  | .graph g => g.checkFocus
  | .chain _ => return ()

/-- Compiles a specification to clauses (`compile_spec`). -/
def compile (sentinel : String) : Specification → Compilation (List Json)
  | .graph g => g.compile sentinel
  | .chain c => c.compile sentinel

end Specification

end Semijoin
