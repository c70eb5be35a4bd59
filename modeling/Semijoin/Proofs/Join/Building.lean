import Semijoin.Join

/-!
# What building a join gives

Building a join and attaching restrictions to it report events but never fail. The joins that come
out are told here together with the events, and then without them.
-/

namespace Semijoin.Join

/-- The join from a field to the target of an endpoint, with nothing attached. -/
def bare (sentinel source : String) (endpoint : Endpoint) : Join :=
  if endpoint.indices.isEmpty then .unresolved source endpoint.path sentinel
  else .resolved source endpoint.toTarget []

/-- A join with further restrictions behind those already there. A join that matches nothing
takes none. -/
def attaching (attachments : List Attachment) : Join → Join
  | .resolved source target attached => .resolved source target (attached ++ attachments)
  | .unresolved source path sentinel => .unresolved source path sentinel

/-- The restrictions that the clauses of an index make. -/
def clauseAttachments (clauses : List Clause) : List Attachment :=
  clauses.map fun clause => .clause clause false

/-- The restrictions that nested joins make. -/
def joinAttachments (joins : List (Join × Bool)) : List Attachment :=
  joins.map fun (nested, negate) => .join nested negate

/-- Attaching nothing leaves a join as it is. -/
@[simp] theorem attaching_nil (join : Join) : join.attaching [] = join := by
  cases join <;> simp [attaching]

/-- Restrictions may be attached in two portions. -/
theorem attaching_append (first second : List Attachment) (join : Join) :
    join.attaching (first ++ second) = (join.attaching first).attaching second := by
  cases join <;> simp [attaching]

/-- What is reported when the join from a field to the target of an endpoint is built. -/
def buildReports (sentinel source : String) (endpoint : Endpoint) : List Event :=
  if endpoint.indices.isEmpty then
    [.noTarget source endpoint.path sentinel, .joinBuilt source]
  else [.joinBuilt source]

/-- What is reported when restrictions are attached to a join: those that it drops. -/
def dropReports (attachments : List Attachment) : Join → List Event
  | .resolved .. => []
  | .unresolved source _ _ =>
    attachments.map fun attachment => .attachmentDropped source attachment.kind

/-- Where nothing is attached, nothing is dropped. -/
@[simp] theorem dropReports_nil (join : Join) : join.dropReports [] = [] := by
  cases join <;> rfl

/-- The reports of two portions of restrictions stand one after the other. -/
theorem dropReports_append (first second : List Attachment) (join : Join) :
    join.dropReports (first ++ second) = join.dropReports first ++ join.dropReports second := by
  cases join with
  | resolved => rfl
  | unresolved => exact List.map_append

/-- Restrictions that are attached do not change what a join drops. -/
@[simp] theorem dropReports_attaching (first second : List Attachment) (join : Join) :
    (join.attaching first).dropReports second = join.dropReports second := by
  cases join <;> rfl

/-- A join of a target with an index drops nothing. -/
theorem dropReports_bare_of_indices {endpoint : Endpoint} (h : endpoint.indices ≠ [])
    (sentinel source : String) (attachments : List Attachment) :
    (bare sentinel source endpoint).dropReports attachments = [] := by
  simp [bare, h, dropReports]

/-- A join of a target without an index drops whatever is attached to it. -/
theorem dropReports_bare_of_indices_eq_nil {endpoint : Endpoint} (h : endpoint.indices = [])
    (sentinel source : String) (attachments : List Attachment) :
    (bare sentinel source endpoint).dropReports attachments =
      attachments.map fun attachment => .attachmentDropped source attachment.kind := by
  simp [bare, h, dropReports]

/-- Building a join gives it together with its reports. -/
theorem build_eq (sentinel source : String) (endpoint : Endpoint) :
    build sentinel source endpoint =
      ⟨buildReports sentinel source endpoint, .ok (bare sentinel source endpoint)⟩ := by
  unfold build buildReports bare
  split <;> rfl

/-- Attaching restrictions gives the join that has them and reports what it drops. -/
theorem attachAll_eq (attachments : List Attachment) (join : Join) :
    join.attachAll attachments =
      ⟨join.dropReports attachments, .ok (join.attaching attachments)⟩ := by
  unfold attachAll
  induction attachments generalizing join with
  | nil =>
    rw [attaching_nil, dropReports_nil]
    rfl
  | cons attachment rest ih =>
    have hfirst : join.attach attachment =
        ⟨join.dropReports [attachment], .ok (join.attaching [attachment])⟩ := by
      cases join <;> rfl
    rw [List.foldlM_cons, hfirst, Traced.bind_of_ok rfl, ih, dropReports_attaching,
      ← dropReports_append, ← attaching_append, List.singleton_append]

/-- Attaching the clauses of an index gives the join that has them and reports what it drops. -/
theorem attachClauses_eq (clauses : List Clause) (join : Join) :
    join.attachClauses clauses = ⟨join.dropReports (clauseAttachments clauses),
      .ok (join.attaching (clauseAttachments clauses))⟩ :=
  attachAll_eq _ join

/-- Attaching nested joins gives the join that has them and reports what it drops. -/
theorem attachJoins_eq (joins : List (Join × Bool)) (join : Join) :
    join.attachJoins joins = ⟨join.dropReports (joinAttachments joins),
      .ok (join.attaching (joinAttachments joins))⟩ :=
  attachAll_eq _ join

/-- Building a join succeeds. -/
theorem result_build (sentinel source : String) (endpoint : Endpoint) :
    (build sentinel source endpoint).result = .ok (bare sentinel source endpoint) :=
  congrArg Traced.result (build_eq sentinel source endpoint)

/-- Attaching restrictions succeeds. -/
theorem result_attachAll (attachments : List Attachment) (join : Join) :
    (join.attachAll attachments).result = .ok (join.attaching attachments) :=
  congrArg Traced.result (attachAll_eq attachments join)

/-- Attaching the clauses of an index succeeds. -/
theorem result_attachClauses (clauses : List Clause) (join : Join) :
    (join.attachClauses clauses).result = .ok (join.attaching (clauseAttachments clauses)) :=
  result_attachAll _ join

/-- Attaching nested joins succeeds. -/
theorem result_attachJoins (joins : List (Join × Bool)) (join : Join) :
    (join.attachJoins joins).result = .ok (join.attaching (joinAttachments joins)) :=
  result_attachAll _ join

end Semijoin.Join
