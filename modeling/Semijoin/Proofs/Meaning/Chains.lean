import Semijoin.Proofs.Chain.Nesting
import Semijoin.Proofs.Meaning.Joins

/-!
# What chains mean

A chain is read step by step, without joins nested in one another: a step passes the documents
that have a value collected from the documents at its other end, of which only those count that
passed the step before. The joins that a chain compiles to mean the same, in their structure and
in their text.
-/

namespace Semijoin

open Set

variable {Doc Value : Type} (I : Interpretation Doc Value)

/-- The documents of an endpoint that satisfy its clauses. There are none without an index. -/
def Endpoint.matching (endpoint : Endpoint) : Set Doc :=
  {d | endpoint.indices ≠ [] ∧ d ∈ I.documents endpoint.indices endpoint.types ∧
    ∀ clause ∈ endpoint.queries, d ∈ I.client clause.body}

/-- The documents that pass a step, given those that passed what comes before it. -/
def Hop.passing (hop : Hop) (before : Set Doc) : Set Doc :=
  negating hop.negate
    (I.joined hop.filtered.path hop.joined.toTarget (hop.joined.matching I ∩ before))

mutual

/-- The documents that pass a chain: those that pass its last step. -/
def Chain.passing : Chain → Set Doc
  | ⟨_, steps⟩ => Step.passingLast steps univ

/-- The documents that pass the last of some steps. -/
def Step.passingLast : List Step → (before : Set Doc) → Set Doc
  | [], before => before
  | step :: rest, before => Step.passingLast rest (step.passing before)

/-- The documents that pass a step. A group is passed by those that pass all its branches. -/
def Step.passing : Step → (before : Set Doc) → Set Doc
  | .relation hop, before => hop.passing I before
  | .group _ branches, before => before ∩ Chain.allPassing branches

/-- The documents that pass all branches of a group. -/
def Chain.allPassing : List Chain → Set Doc
  | [] => univ
  | branch :: rest => branch.passing ∩ Chain.allPassing rest

end

/-- The join of a step means the step, if the joins below it mean what comes before it. -/
theorem Hop.passing_joinOver (hop : Hop) (sentinel : String) (below : List (Join × Bool)) :
    negating (hop.joinOver sentinel below).2 ((hop.joinOver sentinel below).1.passing I) =
      hop.passing I (Join.allPassing I below) := by
  have hnegate : (hop.joinOver sentinel below).2 = hop.negate := rfl
  rw [hnegate, Hop.passing]
  congr 1
  by_cases hindices : hop.joined.indices = []
  · have hnone : hop.joined.matching I = ∅ := by simp [Endpoint.matching, hindices]
    rw [joinOver_of_indices_eq_nil hindices, hnone, empty_inter, Join.passing, I.joined_empty,
      I.joined_empty]
  · have hmatching : hop.joined.matching I =
        I.documents hop.joined.indices hop.joined.types ∩
          {d | ∀ clause ∈ hop.joined.queries, d ∈ I.client clause.body} := by
      ext d
      simp [Endpoint.matching, hindices]
    rw [joinOver_of_indices hindices, Join.passing, Attachment.allPassing_append,
      Attachment.allPassing_clauseAttachments, Attachment.allPassing_joinAttachments, hmatching,
      inter_assoc]

section Piling

variable {sentinel : String}

mutual

/-- The joins of a chain mean the chain, however deep they nest. -/
theorem Chain.allPassing_pile : (chain : Chain) →
    Join.allPassing I (chain.pile sentinel) = chain.passing I
  | ⟨_, steps⟩ => by
    rw [Chain.pile, Step.allPassing_pileAll [] steps, Join.allPassing_nil]
    rfl

/-- The joins of some steps mean the last of them, given what the joins below them mean. -/
theorem Step.allPassing_pileAll (below : List (Join × Bool)) : (steps : List Step) →
    Join.allPassing I (Step.pileAll sentinel below steps) =
      Step.passingLast I steps (Join.allPassing I below)
  | [] => rfl
  | step :: rest => by
    rw [Step.pileAll, Step.allPassing_pileAll _ rest, Step.allPassing_pile below step]
    rfl

/-- The joins of a step mean the step, given what the joins below it mean. -/
theorem Step.allPassing_pile (below : List (Join × Bool)) : (step : Step) →
    Join.allPassing I (step.pile sentinel below) = step.passing I (Join.allPassing I below)
  | .relation hop => by
    rw [Step.pile, Join.allPassing_singleton, hop.passing_joinOver]
    rfl
  | .group _ branches => by
    rw [Step.pile, Join.allPassing_append, Chain.allPassing_pileAll branches]
    rfl

/-- The joins of branches mean all the branches. -/
theorem Chain.allPassing_pileAll : (branches : List Chain) →
    Join.allPassing I (Chain.pileAll sentinel branches) = Chain.allPassing I branches
  | [] => Join.allPassing_nil I
  | branch :: rest => by
    rw [Chain.pileAll, Join.allPassing_append, Chain.allPassing_pile branch,
      Chain.allPassing_pileAll rest]
    rfl

end

/-- The joins that a chain climbs to mean the chain. -/
theorem Chain.allPassing_tier (chain : Chain) {tier : Tier}
    (h : (chain.tier sentinel).result = .ok tier) :
    Join.allPassing I tier.joins = chain.passing I := by
  rw [chain.joins_tier h]
  exact chain.allPassing_pile I

end Piling

/-- **Chains keep their meaning.** Whenever a chain compiles, a document passes all its outermost
joins exactly when it passes the last step of the chain, whatever the clauses of clients mean. And
it satisfies all clauses that the chain compiles to, read off their text, exactly when it passes
the last step of the chain with the clauses of clients read in the same way. -/
theorem Chain.passing_compile {chain : Chain} {sentinel : String} {clauses : List Json}
    (h : (chain.compile sentinel).result = .ok clauses) :
    ∃ joins, (chain.joins sentinel).result = .ok joins ∧ clauses = Join.clauses joins ∧
      Join.allPassing I joins = chain.passing I ∧
      I.allHold clauses = chain.passing I.asRead := by
  obtain ⟨joins, hjoins, h⟩ := Traced.bind_eq_ok h
  cases h
  have hresult := chain.result_joins sentinel
  rw [hjoins] at hresult
  obtain ⟨_, -, hresult⟩ := bind_eq_ok hresult.symm
  obtain ⟨tier, htier, hresult⟩ := bind_eq_ok hresult
  cases hresult
  exact ⟨_, hjoins, rfl, Chain.allPassing_tier I chain htier,
    (Join.allHold_clauses I _).trans (Chain.allPassing_tier I.asRead chain htier)⟩

/-- Documents are numbers, and every field but `id` holds the next one. A join collects the field
of all documents that match, and all clauses of clients ask for small numbers. -/
def Interpretation.numbers : Interpretation Nat Nat where
  documents _ _ := univ
  values field d := if field = "id" then {d} else {d + 1}
  client _ := {d | d < 5}
  collect target matching := {v | ∃ d ∈ matching, v = if target.path = "id" then d else d + 1}
  collect_empty target := by simp

/-- A step from a field of `b` to the documents of some indices. -/
def Hop.sample (source : String) (indices : List String) (queries : List Clause) (negate : Bool) :
    Hop where
  joined := { Endpoint.ofIndex "" "id" with indices, queries }
  filtered := Endpoint.ofIndex "b" source
  negate
  origin := Pointer.root

/-- A chain with a group of two negated branches, one of them without an index. -/
def Chain.sample : Chain :=
  ⟨Pointer.root, [.group Pointer.root [
    ⟨Pointer.root, [.relation (.sample "to_c" ["c"] [.scored (.object [("query", .null)])] true)]⟩,
    ⟨Pointer.root, [.relation (.sample "to_none" [] [.filter (.object [("term", .null)])] true)]⟩],
    .relation (.sample "to_b" ["b"] [.filter (.object [("term", .null)])] false)]⟩

/-- Of the numbers below five only four has a next one that is not, and three comes before it. -/
theorem Chain.passing_compile_sample : ∃ clauses,
    (Chain.sample.compile ".filterjoin").result = .ok clauses ∧
      Interpretation.numbers.allHold clauses = {3} := by
  have hcompile : ∃ clauses, (Chain.sample.compile ".filterjoin").result = .ok clauses := ⟨_, rfl⟩
  obtain ⟨clauses, hclauses⟩ := hcompile
  obtain ⟨joins, -, -, -, hholds⟩ := Chain.passing_compile Interpretation.numbers hclauses
  refine ⟨clauses, hclauses, hholds.trans ?_⟩
  ext d
  simp [Chain.sample, Chain.passing, Step.passingLast, Step.passing, Chain.allPassing,
    Hop.passing, Hop.sample, Endpoint.matching, Endpoint.ofIndex, Interpretation.joined,
    Interpretation.numbers, Interpretation.asRead]
  -- What is left of the two clauses of clients is read as it is given.
  change d + 1 < 5 ∧ ¬ d + 1 + 1 < 5 ↔ d = 3
  omega

end Semijoin
