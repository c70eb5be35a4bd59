import Semijoin.Proofs.Join.Soundness
import Mathlib.Order.BooleanAlgebra.Set

/-!
# What joins mean

An interpretation says which documents stand behind the targets of joins, which values their
fields have, which documents satisfy the clauses of clients, and which values a join collects. It
gives a meaning to joins, and another one to the clauses that they compile to, which is read off
the text alone: a clause is a boolean query, a join, or a clause of a client. Both agree.
-/

namespace Semijoin

open Set

/-- What is known of documents, fields and clauses. A rule that collects values gives none if no
document matches. Nothing else is assumed of it. -/
structure Interpretation (Doc Value : Type) where
  /-- The documents behind some indices, of some types. -/
  documents : (indices types : List String) → Set Doc
  /-- The values that a document has in a field. -/
  values : (field : String) → Doc → Set Value
  /-- The documents that satisfy a clause of a client. -/
  client : (clause : Json) → Set Doc
  /-- The values that a join collects from the documents of its target that match. -/
  collect : Target → (matching : Set Doc) → Set Value
  collect_empty : ∀ target, collect target ∅ = ∅

variable {Doc Value : Type}

namespace Interpretation

/-- The documents with a value, in the source field, that is collected at a target. -/
def joined (I : Interpretation Doc Value) (source : String) (target : Target)
    (matching : Set Doc) : Set Doc :=
  {d | (I.values source d ∩ I.collect target matching).Nonempty}

/-- No document is joined with a target where none matches. -/
@[simp] theorem joined_empty (I : Interpretation Doc Value) (source : String) (target : Target) :
    I.joined source target ∅ = ∅ := by
  simp [joined, I.collect_empty]

end Interpretation

/-- Some documents, or all the others. -/
def negating (negate : Bool) (docs : Set Doc) : Set Doc := if negate then docsᶜ else docs

@[simp] theorem negating_false (docs : Set Doc) : negating false docs = docs := rfl

@[simp] theorem negating_true (docs : Set Doc) : negating true docs = docsᶜ := rfl

section Structure

variable (I : Interpretation Doc Value)

mutual

/-- The documents that pass a join. One that matches nothing collects from no document. -/
def Join.passing : Join → Set Doc
  | .resolved source target attached =>
    I.joined source target
      (I.documents target.indices target.types ∩ Attachment.allPassing attached)
  | .unresolved source path sentinel =>
    I.joined source (Endpoint.ofIndex sentinel path).toTarget ∅

/-- The documents that pass all restrictions. Those that score are never negated. -/
def Attachment.allPassing : List Attachment → Set Doc
  | [] => univ
  | .clause (.scored body) _ :: rest => I.client body ∩ Attachment.allPassing rest
  | .clause (.filter body) negate :: rest =>
    negating negate (I.client body) ∩ Attachment.allPassing rest
  | .join join negate :: rest => negating negate join.passing ∩ Attachment.allPassing rest

end

/-- The documents that pass all joins, each negated or not. -/
def Join.allPassing (joins : List (Join × Bool)) : Set Doc :=
  {d | ∀ join ∈ joins, d ∈ negating join.2 (join.1.passing I)}

@[simp] theorem Join.allPassing_nil : Join.allPassing I [] = univ := by
  simp [allPassing]

/-- The first of some joins is passed as well as the others. -/
theorem Join.allPassing_cons (join : Join × Bool) (rest : List (Join × Bool)) :
    Join.allPassing I (join :: rest) =
      negating join.2 (join.1.passing I) ∩ Join.allPassing I rest := by
  ext d
  simp [allPassing]

/-- All of one join are passed when it is. -/
theorem Join.allPassing_singleton (join : Join × Bool) :
    Join.allPassing I [join] = negating join.2 (join.1.passing I) := by
  rw [allPassing_cons, allPassing_nil, inter_univ]

/-- Joins of two lists are passed when those of each list are. -/
theorem Join.allPassing_append (first second : List (Join × Bool)) :
    Join.allPassing I (first ++ second) = Join.allPassing I first ∩ Join.allPassing I second := by
  ext d
  simp only [allPassing, List.forall_mem_append, mem_inter_iff, mem_ofPred_eq]

namespace Attachment

/-- Restrictions of two lists are passed when those of each list are. -/
theorem allPassing_append (first second : List Attachment) :
    allPassing I (first ++ second) = allPassing I first ∩ allPassing I second := by
  induction first with
  | nil => simp [allPassing]
  | cons attachment rest ih =>
    cases attachment with
    | clause clause negate =>
      cases clause <;> simp only [List.cons_append, allPassing, ih, inter_assoc]
    | join join negate => simp only [List.cons_append, allPassing, ih, inter_assoc]

/-- The clauses of an index are passed by the documents that satisfy all of them. -/
theorem allPassing_clauseAttachments (clauses : List Clause) :
    allPassing I (Join.clauseAttachments clauses) =
      {d | ∀ clause ∈ clauses, d ∈ I.client clause.body} := by
  induction clauses with
  | nil => simp [Join.clauseAttachments, allPassing]
  | cons clause rest ih =>
    have hrest : allPassing I (Join.clauseAttachments (clause :: rest)) =
        I.client clause.body ∩ allPassing I (Join.clauseAttachments rest) := by
      cases clause <;> rfl
    ext d
    simp [hrest, ih]

/-- Nested joins are passed as they are outside. -/
theorem allPassing_joinAttachments (joins : List (Join × Bool)) :
    allPassing I (Join.joinAttachments joins) = Join.allPassing I joins := by
  induction joins with
  | nil => simp [Join.joinAttachments, allPassing]
  | cons join rest ih =>
    rw [Join.allPassing_cons, ← ih]
    rfl

end Attachment

end Structure

/-- The texts in an array. -/
def Json.texts : Json → List String
  | .array items => items.filterMap Json.string?
  | _ => []

/-- The target that the body of a join describes. -/
def Target.ofBody (body : List (String × Json)) : Target where
  path := ((body.lookup "path").bind Json.string?).getD ""
  indices := ((body.lookup "indices").map Json.texts).getD []
  types := ((body.lookup "types").map Json.texts).getD []
  orderBy := (body.lookup "orderBy").bind Json.string?
  maxTerms :=
    match body.lookup "maxTermsPerShard" with
    | some (.number (.integer cap)) => .capped (.ofNat cap.toNat)
    | _ => .unset
  encoding := (body.lookup "termsEncoding").bind Json.string?

namespace Interpretation

/-- The parts of a boolean query that are read. One with other parts is a clause of a client. -/
def occurrences : List String := ["filter", "must", "must_not"]

mutual

/-- The documents that satisfy a clause, as its text is read. -/
def holds (I : Interpretation Doc Value) : Json → Set Doc
  | .object [("match_all", .object [])] => univ
  | .object [("bool", .object parts)] =>
    if parts.all fun (occurrence, _) => occurrences.contains occurrence then I.partsHold parts
    else I.client (.object [("bool", .object parts)])
  | .object [("filterjoin", .object [(source, .object body)])] =>
    let target := Target.ofBody body
    I.joined source target (I.documents target.indices target.types ∩ I.queryHolds body)
  | clause => I.client clause

/-- The documents that satisfy all parts of a boolean query. Each has one clause or several. -/
def partsHold (I : Interpretation Doc Value) : List (String × Json) → Set Doc
  | [] => univ
  | (occurrence, .array clauses) :: rest =>
    (if occurrence = "must_not" then I.noneHold clauses else I.allHold clauses) ∩
      I.partsHold rest
  | (occurrence, clause) :: rest =>
    negating (occurrence = "must_not") (I.holds clause) ∩ I.partsHold rest

/-- The documents that satisfy every clause. -/
def allHold (I : Interpretation Doc Value) : List Json → Set Doc
  | [] => univ
  | clause :: rest => I.holds clause ∩ I.allHold rest

/-- The documents that satisfy no clause. -/
def noneHold (I : Interpretation Doc Value) : List Json → Set Doc
  | [] => univ
  | clause :: rest => (I.holds clause)ᶜ ∩ I.noneHold rest

/-- The documents that satisfy the query in the body of a join. -/
def queryHolds (I : Interpretation Doc Value) : List (String × Json) → Set Doc
  | [] => univ
  | (field, query) :: rest => if field = "query" then I.holds query else I.queryHolds rest

end

/-- The interpretation in which the clauses of clients mean what their texts are read as. It
differs from the given one only on clauses that have the form of a join or of a boolean query. -/
def asRead (I : Interpretation Doc Value) : Interpretation Doc Value := { I with client := I.holds }

variable (I : Interpretation Doc Value)

/-- Every document satisfies the query that matches all. -/
@[simp] theorem holds_matchAll : I.holds matchAll = univ := rfl

/-- A boolean query with one list of excluded clauses. -/
theorem holds_mustNot (clauses : List Json) :
    I.holds (.boolean "must_not" clauses) = I.noneHold clauses := by
  have hholds : I.holds (.boolean "must_not" clauses) = I.noneHold clauses ∩ univ := rfl
  rw [hholds, inter_univ]

/-- The query of a join restricts its documents by all its lists of clauses. -/
theorem holds_query (scored required excluded : List Json) (anyNegated : Bool) :
    I.holds (Join.query scored required excluded anyNegated) =
      I.allHold required ∩ (if anyNegated then I.noneHold excluded else univ) ∩
        I.allHold scored := by
  have hmust : I.allHold (matchAll :: scored) = I.allHold scored := by
    rw [allHold, holds_matchAll, univ_inter]
  cases anyNegated with
  | false =>
    have hholds : I.holds (Join.query scored required excluded false) =
        (I.allHold required ∩ univ) ∩ (I.allHold (matchAll :: scored) ∩ univ) := rfl
    rw [hholds, hmust, inter_univ (I.allHold scored)]
    rfl
  | true =>
    have hholds : I.holds (Join.query scored required excluded true) =
        (I.allHold required ∩ (I.noneHold excluded ∩ univ)) ∩
          (I.allHold (matchAll :: scored) ∩ univ) := rfl
    rw [hholds, hmust, inter_univ (I.allHold scored), inter_univ (I.noneHold excluded)]
    rfl

end Interpretation

/-- A list of texts is read back. -/
theorem Json.texts_ofTexts (texts : List String) : (Json.ofTexts texts).texts = texts := by
  have hsome : (Json.string? ∘ Json.string) = some := rfl
  rw [ofTexts, Json.texts, List.filterMap_map, hsome, List.filterMap_some]

namespace Target

/-- The body of a join describes its target, and restricts it by its query. -/
theorem exists_toJson_eq (I : Interpretation Doc Value) (target : Target) (query : Json) :
    ∃ body, target.toJson query = .object body ∧ ofBody body = target ∧
      I.queryHolds body = I.holds query := by
  obtain ⟨path, indices, types, orderBy, maxTerms, encoding⟩ := target
  refine ⟨_, rfl, ?_, ?_⟩
  · cases maxTerms <;> cases orderBy <;> cases encoding <;> cases types <;>
      simp [ofBody, TermsLimit.cap?, List.lookup_cons, List.lookup_nil, Json.string?,
        Json.texts_ofTexts]
  · cases maxTerms <;> cases orderBy <;>
      simp [TermsLimit.cap?, Interpretation.queryHolds]

end Target

section Agreement

variable (I : Interpretation Doc Value)

/-- A join under a field is read as a join from that field. -/
theorem Interpretation.holds_wrap (source : String) (target : Target) (query : Json) :
    I.holds (Join.wrap source (target.toJson query)) =
      I.joined source target (I.documents target.indices target.types ∩ I.holds query) := by
  obtain ⟨body, hbody, htarget, hquery⟩ := target.exists_toJson_eq I query
  rw [hbody, Join.wrap, Interpretation.holds, hquery, htarget]

/-- Where no attachment is negated, the list of the negated ones may be left out. -/
theorem Interpretation.noneHold_of_anyNegated (attached : List Attachment) :
    (if Attachment.anyNegated attached then I.noneHold (filtersJson true attached) else univ) =
      I.noneHold (filtersJson true attached) := by
  cases hnegated : Attachment.anyNegated attached with
  | true => rfl
  | false =>
    rw [Join.filtersJson_true_eq_nil hnegated]
    rfl

/-- A clause that is required, or excluded if it is negated, restricts as it does alone. -/
theorem Interpretation.allHold_filtered (negate : Bool) (clause : Json)
    (required excluded scored : List Json) :
    I.allHold (if negate = false then clause :: required else required) ∩
        I.noneHold (if negate = true then clause :: excluded else excluded) ∩ I.allHold scored =
      negating negate (I.holds clause) ∩
        (I.allHold required ∩ I.noneHold excluded ∩ I.allHold scored) := by
  cases negate with
  | false =>
    simp only [if_true, Bool.false_eq_true, if_false, allHold, negating_false, inter_assoc]
  | true =>
    simp only [if_true, Bool.true_eq_false, if_false, noneHold, negating_true, inter_assoc]
    rw [inter_left_comm]

mutual

/-- The clause of a join is read as what the join means. -/
theorem Join.holds_toJson : (join : Join) → I.holds join.toJson = join.passing I.asRead
  | .resolved source target attached => by
    have hattached := Attachment.holds_lists attached
    rw [Join.toJson, I.holds_wrap, I.holds_query, I.noneHold_of_anyNegated, hattached]
    rfl
  | .unresolved source path sentinel => by
    let target := (Endpoint.ofIndex sentinel path).toTarget
    have hnone : I.holds (.boolean "must_not" [matchAll]) = ∅ := by
      rw [I.holds_mustNot, Interpretation.noneHold, I.holds_matchAll, compl_univ, empty_inter]
    have hwrap := I.holds_wrap source target (.boolean "must_not" [matchAll])
    rw [hnone, inter_empty] at hwrap
    exact hwrap

/-- The lists of clauses that attachments become are read as what the attachments mean. -/
theorem Attachment.holds_lists : (attached : List Attachment) →
    I.allHold (filtersJson false attached) ∩ I.noneHold (filtersJson true attached) ∩
        I.allHold (Attachment.scored attached) =
      Attachment.allPassing I.asRead attached
  | [] => by
    simp [filtersJson, Attachment.scored, Interpretation.allHold, Interpretation.noneHold,
      Attachment.allPassing]
  | .clause (.scored body) negate :: rest => by
    have hrest := Attachment.holds_lists rest
    rw [filtersJson, filtersJson, Attachment.scored, Interpretation.allHold,
      Attachment.allPassing, ← hrest]
    exact inter_left_comm _ _ _
  | .clause (.filter body) negate :: rest => by
    have hrest := Attachment.holds_lists rest
    have hscored : Attachment.scored (.clause (.filter body) negate :: rest) =
        Attachment.scored rest := rfl
    rw [filtersJson, filtersJson, hscored, I.allHold_filtered, hrest]
    rfl
  | .join join negate :: rest => by
    have hjoin := Join.holds_toJson join
    have hrest := Attachment.holds_lists rest
    have hscored : Attachment.scored (.join join negate :: rest) = Attachment.scored rest := rfl
    rw [filtersJson, filtersJson, hscored, I.allHold_filtered, hrest, hjoin]
    rfl

end

/-- The clauses for joins that are not inside others are read as what the joins mean together. -/
theorem Join.allHold_clauses (joins : List (Join × Bool)) :
    I.allHold (Join.clauses joins) = Join.allPassing I.asRead joins := by
  induction joins with
  | nil => rw [Join.allPassing_nil]; rfl
  | cons join rest ih =>
    obtain ⟨join, negate⟩ := join
    have houter : I.holds (join.outerJson negate) = negating negate (join.passing I.asRead) := by
      cases negate with
      | false => exact Join.holds_toJson I join
      | true =>
        have hmustNot := I.holds_mustNot [join.toJson]
        rw [Interpretation.noneHold, Interpretation.noneHold, inter_univ,
          Join.holds_toJson I join] at hmustNot
        exact hmustNot
    rw [Join.allPassing_cons, ← ih, ← houter]
    rfl

end Agreement

end Semijoin
