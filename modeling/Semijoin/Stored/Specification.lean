import Semijoin.Specification
import Semijoin.Stored.Chain
import Semijoin.Stored.Graph

/-!
# The stored form of specifications
-/

namespace Semijoin.Specification

/-- The stored form of a specification. It does not tell which form the specification has. -/
def toStored : Specification → Json
  | .graph g => g.toStored
  | .chain c => c.toStored

/-- Reads a stored specification of the form that a label names. -/
def ofStored? (label : Label) (value : Json) : Option Specification :=
  match label with
  | .joinSet => (Graph.ofStored? value).map .graph
  | .joinSequence => (Chain.ofStored? value).map .chain

/-- Reads a text that holds a stored specification of the form that a label names. -/
def ofText? (label : Label) (text : String) : Option Specification :=
  match label with
  | .joinSet => (Graph.ofText? text).map .graph
  | .joinSequence => (Chain.ofText? text).map .chain

end Semijoin.Specification
