import Semijoin.Proofs.Join.Building

/-!
# Kinds of reports

Of what building a join and attaching restrictions to it report, the events of each kind are picked
out here: a join is built once, and nothing but restrictions is dropped.
-/

namespace Semijoin

namespace Event

/-- The event reports a join that has been built. -/
def isBuilt : Event → Bool
  | .joinBuilt _ => true
  | _ => false

/-- The event reports a restriction that is dropped. -/
def isDropped : Event → Bool
  | .attachmentDropped .. => true
  | _ => false

/-- The event reports a relation that is skipped. -/
def isSkipped : Event → Bool
  | .relationSkipped .. => true
  | _ => false

/-- The event is a warning. -/
def isWarning (event : Event) : Bool := event.level = .warn

end Event

namespace Join

variable (sentinel source : String) (endpoint : Endpoint) (attachments : List Attachment)
  (join : Join)

/-- Building a join is reported once. -/
@[simp] theorem filter_isBuilt_buildReports :
    (buildReports sentinel source endpoint).filter Event.isBuilt = [.joinBuilt source] := by
  unfold buildReports
  split <;> rfl

/-- Building a join drops nothing. -/
@[simp] theorem filter_isDropped_buildReports :
    (buildReports sentinel source endpoint).filter Event.isDropped = [] := by
  unfold buildReports
  split <;> rfl

/-- Building a join skips no relation. -/
@[simp] theorem filter_isSkipped_buildReports :
    (buildReports sentinel source endpoint).filter Event.isSkipped = [] := by
  unfold buildReports
  split <;> rfl

/-- Building a join is no reason for a warning. -/
@[simp] theorem filter_isWarning_buildReports :
    (buildReports sentinel source endpoint).filter Event.isWarning = [] := by
  unfold buildReports
  split <;> rfl

/-- Attaching restrictions builds no join. -/
@[simp] theorem filter_isBuilt_dropReports :
    (join.dropReports attachments).filter Event.isBuilt = [] := by
  cases join <;> simp [dropReports, Event.isBuilt]

/-- Attaching restrictions reports nothing but those that are dropped. -/
@[simp] theorem filter_isDropped_dropReports :
    (join.dropReports attachments).filter Event.isDropped = join.dropReports attachments := by
  cases join <;> simp [dropReports, Event.isDropped]

/-- Attaching restrictions is no reason for a warning. -/
@[simp] theorem filter_isWarning_dropReports :
    (join.dropReports attachments).filter Event.isWarning = [] := by
  cases join <;> simp [dropReports, Event.isWarning, Event.level]

end Join

end Semijoin
