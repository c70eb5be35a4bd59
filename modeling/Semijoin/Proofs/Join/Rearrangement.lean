import Semijoin.Proofs.Join.Rendering
import Semijoin.Proofs.Join.Levels

/-!
# Joins in another order

The order in which joins are nested in a join, or stand side by side, is all that two lists of joins
may differ in. Then the clauses that they compile to differ only in the order of what is required or
excluded, and the joins nest equally deep.
-/

namespace Semijoin

mutual

/-- Two joins differ in nothing but the order in which joins are nested in them. The clauses keep
their places in front of the nested joins. -/
inductive Join.Resembles : Join → Join → Prop
  | resolved (source : String) (target : Target) (clauses : List Clause)
    {joins joins' : List (Join × Bool)} (h : Join.Rearranged joins joins') :
    Join.Resembles
      (.resolved source target (Join.clauseAttachments clauses ++ Join.joinAttachments joins))
      (.resolved source target (Join.clauseAttachments clauses ++ Join.joinAttachments joins'))
  | unresolved (source path sentinel : String) :
    Join.Resembles (.unresolved source path sentinel) (.unresolved source path sentinel)

/-- The joins of two lists resemble each other one by one, in some order. -/
inductive Join.Rearranged : List (Join × Bool) → List (Join × Bool) → Prop
  | nil : Join.Rearranged [] []
  | cons {join join' : Join} (negate : Bool) {rest rest' : List (Join × Bool)}
    (hjoin : Join.Resembles join join') (hrest : Join.Rearranged rest rest') :
    Join.Rearranged ((join, negate) :: rest) ((join', negate) :: rest')
  | perm {joins middle joins' : List (Join × Bool)} (h : Join.Rearranged joins middle)
    (hperm : middle.Perm joins') : Join.Rearranged joins joins'

end

mutual

/-- Two clauses differ in nothing but the order in which joins are required or excluded in them.
What is required before the joins keeps its place. -/
inductive Json.Resembles : Json → Json → Prop
  | same (clause : Json) : Json.Resembles clause clause
  | excluded {clause clause' : Json} (h : Json.Resembles clause clause') :
    Json.Resembles (.boolean "must_not" [clause]) (.boolean "must_not" [clause'])
  | join (source : String) (target : Target) (scored filters : List Json) (anyNegated : Bool)
    {required required' excluded excluded' : List Json}
    (hrequired : Json.Rearranged required required')
    (hexcluded : Json.Rearranged excluded excluded') :
    Json.Resembles
      (Join.wrap source (target.toJson
        (Join.query scored (filters ++ required) excluded anyNegated)))
      (Join.wrap source (target.toJson
        (Join.query scored (filters ++ required') excluded' anyNegated)))

/-- The clauses of two lists resemble each other one by one, in some order. -/
inductive Json.Rearranged : List Json → List Json → Prop
  | nil : Json.Rearranged [] []
  | cons {clause clause' : Json} {rest rest' : List Json}
    (hclause : Json.Resembles clause clause') (hrest : Json.Rearranged rest rest') :
    Json.Rearranged (clause :: rest) (clause' :: rest')
  | perm {clauses middle clauses' : List Json} (h : Json.Rearranged clauses middle)
    (hperm : middle.Perm clauses') : Json.Rearranged clauses clauses'

end

namespace Join

/-- The deepest of some joins is as deep in any order. -/
theorem maxDepth_perm {joins joins' : List (Join × Bool)} (h : joins.Perm joins') :
    maxDepth joins = maxDepth joins' := by
  induction h with
  | nil => rfl
  | cons join _ ih => exact congrArg (max join.1.depth) ih
  | swap one other rest => exact Nat.max_left_comm _ _ _
  | trans _ _ ih ih' => exact ih.trans ih'

mutual

/-- Joins that resemble each other are equally deep. -/
theorem Resembles.depth_eq {join join' : Join} : Resembles join join' → join.depth = join'.depth
  | .resolved _ _ clauses h => by
    have hdepth := Rearranged.maxDepth_eq h
    simp only [depth, attachedDepth_append]
    exact congrArg (fun depth => max (attachedDepth (clauseAttachments clauses)) depth + 1) hdepth
  | .unresolved _ _ _ => rfl

/-- The deepest of some joins is as deep when they are rearranged. -/
theorem Rearranged.maxDepth_eq {joins joins' : List (Join × Bool)} :
    Rearranged joins joins' → maxDepth joins = maxDepth joins'
  | .nil => rfl
  | .cons _ hjoin hrest => congrArg₂ max hjoin.depth_eq hrest.maxDepth_eq
  | .perm h hperm => h.maxDepth_eq.trans (maxDepth_perm hperm)

end

/-- What two functions make of the same values is rearranged if it resembles each other for every
value. -/
theorem Rearranged.filterMap {α : Type} {values : List α} {give? give'? : α → Option (Join × Bool)}
    (h : ∀ value ∈ values, give? value = none ∧ give'? value = none ∨
      ∃ join join' negate, give? value = some (join, negate) ∧
        give'? value = some (join', negate) ∧ Resembles join join') :
    Rearranged (values.filterMap give?) (values.filterMap give'?) := by
  induction values with
  | nil => exact .nil
  | cons value rest ih =>
    obtain ⟨hvalue, hrest⟩ := List.forall_mem_cons.mp h
    rcases hvalue with ⟨hnone, hnone'⟩ | ⟨join, join', negate, hsome, hsome', hjoin⟩
    · rw [List.filterMap_cons_none hnone, List.filterMap_cons_none hnone']
      exact ih hrest
    · rw [List.filterMap_cons_some hsome, List.filterMap_cons_some hsome']
      exact .cons negate hjoin (ih hrest)

/-- Some join is negated in any order. -/
theorem Rearranged.any_eq {joins joins' : List (Join × Bool)} :
    Rearranged joins joins' → joins.any Prod.snd = joins'.any Prod.snd
  | .nil => rfl
  | .cons negate _ hrest => congrArg (negate || ·) hrest.any_eq
  | .perm h hperm => h.any_eq.trans hperm.any_eq

mutual

/-- Joins that resemble each other compile to clauses that do. -/
theorem Resembles.toJson {join join' : Join} :
    Resembles join join' → Json.Resembles join.toJson join'.toJson
  | .resolved source target clauses h => by
    simp only [Join.toJson, Attachment.scored_clausesAndJoins,
      Attachment.anyNegated_clausesAndJoins, Attachment.filtersJson_false_clauseAttachments,
      Attachment.filtersJson_true_clauseAttachments, Attachment.filtersJson_joinAttachments,
      h.any_eq]
    exact .join source target _ _ _ (h.texts false) (h.texts true)
  | .unresolved _ _ _ => .same _

/-- Of joins that are rearranged, those that are required or excluded are rearranged. -/
theorem Rearranged.texts {joins joins' : List (Join × Bool)} (negated : Bool) :
    Rearranged joins joins' →
      Json.Rearranged (joins.filterMap (textOf? negated)) (joins'.filterMap (textOf? negated))
  | .nil => .nil
  | .cons negate hjoin hrest => by
    rw [List.filterMap_cons, List.filterMap_cons, textOf?, textOf?]
    by_cases h : negate = negated
    · simpa only [h, if_true] using .cons hjoin.toJson (hrest.texts negated)
    · simpa only [h, if_false] using hrest.texts negated
  | .perm h hperm => .perm (h.texts negated) (hperm.filterMap _)

end

/-- Joins that are rearranged compile to clauses that are. -/
theorem Rearranged.clauses {joins joins' : List (Join × Bool)} :
    Rearranged joins joins' → Json.Rearranged (Join.clauses joins) (Join.clauses joins')
  | .nil => .nil
  | .cons negate hjoin hrest => by
    refine .cons ?_ hrest.clauses
    cases negate with
    | false => exact hjoin.toJson
    | true => exact .excluded hjoin.toJson
  | .perm h hperm => .perm h.clauses (hperm.map _)

end Join

end Semijoin
