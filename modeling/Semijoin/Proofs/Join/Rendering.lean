import Semijoin.Proofs.Join.Building

/-!
# The clauses that joins compile to

The clause of a join is told here from the clauses and the joins that have been attached to it. This
goes one level down: of the nested joins it takes what they compile to, and of the target its
members.
-/

namespace Semijoin

/-- The text of a clause that takes part in scoring. -/
def Clause.scored? : Clause → Option Json
  | .scored body => some body
  | .filter _ => none

/-- The text of a clause that only filters. -/
def Clause.plain? : Clause → Option Json
  | .scored _ => none
  | .filter body => some body

/-- The text of a join if it is negated, or if it is not. -/
def Join.textOf? (negated : Bool) (join : Join × Bool) : Option Json :=
  if join.2 = negated then some join.1.toJson else none

namespace Attachment

variable (clauses : List Clause) (joins : List (Join × Bool))

/-- The scored clauses are those written among the clauses. -/
theorem scored_clausesAndJoins :
    scored (Join.clauseAttachments clauses ++ Join.joinAttachments joins) =
      clauses.filterMap Clause.scored? := by
  induction clauses with
  | nil =>
    induction joins with
    | nil => rfl
    | cons join rest ih => exact ih
  | cons clause rest ih =>
    cases clause with
    | scored body => exact congrArg (body :: ·) ih
    | filter body => exact ih

/-- No clause is negated, so the negated attachments are joins. -/
theorem anyNegated_clausesAndJoins :
    anyNegated (Join.clauseAttachments clauses ++ Join.joinAttachments joins) =
      joins.any Prod.snd := by
  induction clauses with
  | nil =>
    induction joins with
    | nil => rfl
    | cons join rest ih =>
      obtain ⟨join, negate⟩ := join
      cases negate with
      | false => exact ih
      | true => rfl
  | cons clause rest ih => cases clause <;> exact ih

/-- Clauses that only filter are required, before what follows them. -/
theorem filtersJson_false_clauseAttachments (rest : List Attachment) :
    filtersJson false (Join.clauseAttachments clauses ++ rest) =
      clauses.filterMap Clause.plain? ++ filtersJson false rest := by
  induction clauses with
  | nil => rfl
  | cons clause others ih =>
    cases clause with
    | scored body => exact ih
    | filter body => exact congrArg (body :: ·) ih

/-- Clauses are never excluded. -/
theorem filtersJson_true_clauseAttachments (rest : List Attachment) :
    filtersJson true (Join.clauseAttachments clauses ++ rest) = filtersJson true rest := by
  induction clauses with
  | nil => rfl
  | cons clause others ih => cases clause <;> exact ih

/-- Joins are required or excluded in their order. -/
theorem filtersJson_joinAttachments (negated : Bool) :
    filtersJson negated (Join.joinAttachments joins) = joins.filterMap (Join.textOf? negated) := by
  induction joins with
  | nil => rfl
  | cons join rest ih =>
    change (if join.2 = negated
      then join.1.toJson :: filtersJson negated (Join.joinAttachments rest)
      else filtersJson negated (Join.joinAttachments rest)) = _
    rw [ih, List.filterMap_cons, Join.textOf?]
    split <;> rfl

end Attachment

/-- Some join is negated exactly when there is one to exclude. -/
theorem Join.isEmpty_filterMap_textOf? (joins : List (Join × Bool)) :
    (joins.filterMap (textOf? true)).isEmpty = !joins.any Prod.snd := by
  induction joins with
  | nil => rfl
  | cons join rest ih =>
    obtain ⟨join, negate⟩ := join
    cases negate with
    | false => exact ih
    | true => rfl

namespace Join

/-- The clause of a join that carries clauses and joins. The scored clauses stand beside the query
that matches everything. The filter requires the other clauses and then the joins that are not
negated, and it excludes the negated ones if there are any. -/
def clauseOver (source : String) (target : Target) (clauses : List Clause)
    (joins : List (Join × Bool)) : Json :=
  let scored := clauses.filterMap Clause.scored?
  let required := clauses.filterMap Clause.plain? ++ joins.filterMap (textOf? false)
  let excluded := joins.filterMap (textOf? true)
  let filter := .object [("bool", .object <| ("must", .array required) ::
    if excluded.isEmpty then [] else [("must_not", .array excluded)])]
  let query := .object [("bool", .object
    [("filter", filter), ("must", .array (matchAll :: scored))])]
  .object [("filterjoin", .object [(source, target.toJson query)])]

/-- The clause of a join against the sentinel index. Its query excludes every document. -/
def clauseAgainst (source path sentinel : String) : Json :=
  let query := .object [("bool", .object [("must_not", .array [matchAll])])]
  .object [("filterjoin", .object [(source, .object
    [("indices", .array [.string sentinel]), ("path", .string path), ("query", query)])])]

/-- What is attached to a join stands in its clause. -/
theorem toJson_resolved (source : String) (target : Target) (clauses : List Clause)
    (joins : List (Join × Bool)) :
    (resolved source target (clauseAttachments clauses ++ joinAttachments joins)).toJson =
      clauseOver source target clauses joins := by
  rw [Join.toJson, Join.query, Attachment.scored_clausesAndJoins,
    Attachment.anyNegated_clausesAndJoins, Attachment.filtersJson_false_clauseAttachments,
    Attachment.filtersJson_true_clauseAttachments, Attachment.filtersJson_joinAttachments,
    Attachment.filtersJson_joinAttachments, clauseOver, isEmpty_filterMap_textOf?]
  cases joins.any Prod.snd <;> rfl

/-- A join that matches nothing compiles to a clause against the sentinel index. -/
theorem toJson_unresolved (source path sentinel : String) :
    (unresolved source path sentinel).toJson = clauseAgainst source path sentinel := by
  rw [Join.toJson]
  rfl

end Join

end Semijoin
