import Semijoin.Pointer
import Semijoin.Text.Quoted

/-!
# Events

Compilation reports what it does. An event holds the facts; its level, its wording and
its details by name are derived from them.
-/

namespace Semijoin

/-- How important an event is. -/
inductive Level where
  | warn
  | info
  | debug
  | trace
  deriving DecidableEq, Repr

/-- The place of a level in the order from the most to the least important. -/
def Level.rank : Level → Nat
  | .warn => 0
  | .info => 1
  | .debug => 2
  | .trace => 3

/-- The name of a level. -/
def Level.name : Level → String
  | .warn => "WARN"
  | .info => "INFO"
  | .debug => "DEBUG"
  | .trace => "TRACE"

/-- What an attachment would have added to a join. -/
inductive Dropped where
  | filter
  | nestedJoin
  deriving DecidableEq, Repr

/-- Something that compilation reports. -/
inductive Event where
  | joinBuilt (source : String)
  | noTarget (source path sentinel : String)
  | attachmentDropped (source : String) (what : Dropped)
  | relationSkipped (near far : String) (relation : Pointer)
  | graphCompiled (focus : String) (relations visited joins : Nat)
  | queriesIgnored (step : Pointer)
  | chainCompiled (origin : Pointer) (steps depth joins : Nat)
  | documentExpanded (graphs chains clauses : Nat)
  | bodyExpanded (searches specifications : Nat)
  | configLoaded (sentinel : String)
  deriving DecidableEq, Repr

namespace Event

/-- The level of an event. -/
def level : Event → Level
  | .queriesIgnored _ => .warn
  | .configLoaded _ => .info
  | .noTarget .. | .attachmentDropped .. | .graphCompiled .. | .chainCompiled ..
  | .documentExpanded .. | .bodyExpanded .. => .debug
  | .joinBuilt _ | .relationSkipped .. => .trace

/-- The wording of an event. -/
def message : Event → String
  | .joinBuilt _ => "built filterjoin node"
  | .noTarget .. => "relation has no target index; joining against the sentinel"
  | .attachmentDropped .. => "dropping attachment on a join that matches nothing"
  | .relationSkipped .. => "skipping relation to an index already joined"
  | .graphCompiled .. => "compiled join set"
  | .queriesIgnored _ => "ignoring `queries` on the filtered side of an inner join step"
  | .chainCompiled .. => "compiled join sequence"
  | .documentExpanded .. => "rewrote document"
  | .bodyExpanded .. => "rewrote multi-search body"
  | .configLoaded _ => "loaded compiler config"

/-- The details of an event, by name. -/
def fields : Event → List (String × String)
  | .joinBuilt source => [("source_path", source)]
  | .noTarget source path sentinel =>
    [("source_path", source), ("path", path), ("sentinel", sentinel)]
  | .attachmentDropped source what =>
    [("source_path", source),
      ("what", match what with
        | .filter => "filter"
        | .nestedJoin => "nested join")]
  | .relationSkipped near far relation => [("from", near), ("to", far), ("at", relation.text)]
  | .graphCompiled focus relations visited joins =>
    [("focus", focus), ("relations", toString relations), ("visited", toString visited),
      ("joins", toString joins)]
  | .queriesIgnored step => [("at", step.text)]
  | .chainCompiled origin steps depth joins =>
    [("at", origin.text), ("steps", toString steps), ("depth", toString depth),
      ("joins", toString joins)]
  | .documentExpanded graphs chains clauses =>
    [("join_sets", toString graphs), ("join_sequences", toString chains),
      ("clauses", toString clauses)]
  | .bodyExpanded searches specifications =>
    [("searches", toString searches), ("specs", toString specifications)]
  | .configLoaded sentinel => [("sentinel_index", sentinel)]

/-- The names of the details that a record has between quotes. -/
def quotedFields : Event → List String
  | .joinBuilt _ | .noTarget .. => ["source_path"]
  | .attachmentDropped .. => ["what"]
  | .relationSkipped .. => ["from", "to"]
  | .graphCompiled .. | .queriesIgnored _ | .chainCompiled .. | .documentExpanded ..
  | .bodyExpanded .. | .configLoaded _ => []

/-- The record of an event. -/
def text (event : Event) : String :=
  let detail := fun (field, value) =>
    let shown := if event.quotedFields.contains field then Text.quoted value else value
    s!" {field}={shown}"
  s!"{event.level.name} {event.message}{String.join (event.fields.map detail)}"

end Event

end Semijoin
