import Semijoin.Proofs.Join.Building

/-!
# What joins carry along

The queries of the clauses attached to a join, and to the joins nested in it, come from a client and
are carried along as they are. A property of values that these queries have passes to the clause
that the join compiles to if it passes through every single join.
-/

namespace Semijoin

variable {property : Json → Prop}

/-- The queries of some clauses have a property. -/
def Clause.AllHave (property : Json → Prop) (clauses : List Clause) : Prop :=
  ∀ clause ∈ clauses, property clause.body

mutual

/-- The queries of the clauses attached to a join have a property, and so do those of the joins
nested in it. -/
def Join.Carries (property : Json → Prop) : Join → Prop
  | .resolved _ _ attached => Attachment.AllCarry property attached
  | .unresolved .. => True

/-- The queries of the clauses among some attachments have a property, and so do those of the joins
among them. -/
def Attachment.AllCarry (property : Json → Prop) : List Attachment → Prop
  | [] => True
  | .clause clause _ :: rest => property clause.body ∧ Attachment.AllCarry property rest
  | .join join _ :: rest => join.Carries property ∧ Attachment.AllCarry property rest

end

/-- A join is another one or nested in it. -/
inductive Join.Within (join : Join) : Join → Prop
  | self : Within join join
  | nested {source : String} {target : Target} {attached : List Attachment} {inner : Join}
      {negate : Bool} (hmem : .join inner negate ∈ attached) (h : Within join inner) :
      Within join (.resolved source target attached)

namespace Attachment

/-- Attachments of two lists have a property if those of each list have it. -/
theorem allCarry_append {first second : List Attachment} (hfirst : AllCarry property first)
    (hsecond : AllCarry property second) : AllCarry property (first ++ second) := by
  induction first with
  | nil => exact hsecond
  | cons attachment rest ih =>
    cases attachment with
    | clause clause negate => exact ⟨hfirst.1, ih hfirst.2⟩
    | join join negate => exact ⟨hfirst.1, ih hfirst.2⟩

/-- Clauses have a property as attachments that they have as clauses. -/
theorem allCarry_clauseAttachments {clauses : List Clause} (h : Clause.AllHave property clauses) :
    AllCarry property (Join.clauseAttachments clauses) := by
  induction clauses with
  | nil => exact trivial
  | cons clause rest ih =>
    have hrest := ih fun other hother => h other (List.mem_cons_of_mem _ hother)
    exact ⟨h clause List.mem_cons_self, hrest⟩

/-- Joins have a property as attachments that they have as joins. -/
theorem allCarry_joinAttachments {joins : List (Join × Bool)}
    (h : ∀ join ∈ joins, join.1.Carries property) :
    AllCarry property (Join.joinAttachments joins) := by
  induction joins with
  | nil => exact trivial
  | cons join rest ih =>
    have hrest := ih fun other hother => h other (List.mem_cons_of_mem _ hother)
    exact ⟨h join List.mem_cons_self, hrest⟩

/-- The scored clauses among some attachments have a property if all clauses have it. -/
theorem AllCarry.scored {attached : List Attachment} (h : AllCarry property attached) :
    ∀ body ∈ Attachment.scored attached, property body := by
  induction attached with
  | nil => exact List.forall_mem_nil _
  | cons attachment rest ih =>
    cases attachment with
    | clause clause negate =>
      cases clause with
      | scored body => exact List.forall_mem_cons.mpr ⟨h.1, ih h.2⟩
      | filter body => exact ih h.2
    | join join negate => exact ih h.2

end Attachment

namespace Target

/-- The keys of the body of a join are some of seven, in their order. -/
theorem keys_toJson (target : Target) (query : Json) :
    ((target.toJson query).members.map Prod.fst).Sublist
      ["indices", "maxTermsPerShard", "orderBy", "path", "query", "termsEncoding", "types"] := by
  rw [toJson, Json.members]
  cases target.maxTerms <;> cases target.orderBy <;> cases target.encoding <;>
    cases target.types.isEmpty <;>
    simp only [TermsLimit.cap?, Option.map_some, Option.map_none, Option.toList_some,
      Option.toList_none, List.map_cons, List.map_nil, List.cons_append,
      List.nil_append, List.append_nil, if_true, Bool.false_eq_true, if_false] <;>
    decide

/-- The values in the body of a join are the query, texts, lists of texts and a limit. -/
theorem forall_members_toJson (target : Target) {query : Json} (hquery : property query)
    (htext : ∀ text, property (.string text)) (htexts : ∀ texts, property (.ofTexts texts))
    (hcap : ∀ cap : UInt64, property (.number (.integer cap.toNat))) :
    ∀ member ∈ (target.toJson query).members, property member.2 := by
  have hoptional {α : Type} (key : String) (setting : Option α) {value : α → Json}
      (h : ∀ given, property (value given)) :
      ∀ member ∈ (setting.map fun given => (key, value given)).toList, property member.2 := by
    cases setting with
    | none => exact List.forall_mem_nil _
    | some given => exact List.forall_mem_singleton.mpr (h given)
  rw [toJson, Json.members]
  simp only [List.forall_mem_append, List.forall_mem_cons]
  refine ⟨⟨⟨⟨⟨⟨htexts _, ?_⟩, hoptional _ _ hcap⟩, hoptional _ _ htext⟩, htext _, hquery, ?_⟩,
    hoptional _ _ htext⟩, ?_⟩
  · exact List.forall_mem_nil _
  · exact List.forall_mem_nil _
  · split
    · exact List.forall_mem_nil _
    · exact List.forall_mem_singleton.mpr (htexts _)

end Target

namespace Join

/-- A join with nothing attached carries nothing. -/
theorem carries_bare (sentinel source : String) (endpoint : Endpoint) :
    (bare sentinel source endpoint).Carries property := by
  unfold bare
  split <;> exact trivial

/-- A join takes on the properties of what is attached to it. -/
theorem Carries.attaching {join : Join} (hjoin : join.Carries property)
    {attachments : List Attachment} (h : Attachment.AllCarry property attachments) :
    (join.attaching attachments).Carries property := by
  cases join with
  | resolved source target attached => exact Attachment.allCarry_append hjoin h
  | unresolved source path sentinel => exact trivial

/-- A property of values passes through every single join of some kind: the clause of the join has
it if the clauses in it have it. -/
structure Passes (property : Json → Prop) (allowed : Join → Prop) : Prop where
  resolved (source : String) (target : Target) (attached : List Attachment) :
    allowed (.resolved source target attached) →
    (∀ body ∈ Attachment.scored attached, property body) →
    (∀ negated, ∀ clause ∈ filtersJson negated attached, property clause) →
    property (Join.resolved source target attached).toJson
  unresolved (source path sentinel : String) :
    allowed (.unresolved source path sentinel) →
    property (Join.unresolved source path sentinel).toJson

mutual

/-- A property that passes through every single join passes from what a join carries to its
clause. -/
theorem Passes.toJson {allowed : Join → Prop} (hpasses : Passes property allowed) :
    (join : Join) → join.Carries property → (∀ inner, inner.Within join → allowed inner) →
    property join.toJson
  | .resolved source target attached, h, hallowed =>
    hpasses.resolved source target attached (hallowed _ .self) (Attachment.AllCarry.scored h)
      fun negated => hpasses.filtersJson negated attached h
        fun _ _ hmem inner hwithin => hallowed inner (.nested hmem hwithin)
  | .unresolved source path sentinel, _, hallowed =>
    hpasses.unresolved source path sentinel (hallowed _ .self)

/-- It passes to the restrictions that filter without scoring. -/
theorem Passes.filtersJson {allowed : Join → Prop} (hpasses : Passes property allowed)
    (negated : Bool) : (attached : List Attachment) → Attachment.AllCarry property attached →
    (∀ join negate, .join join negate ∈ attached → ∀ inner, inner.Within join → allowed inner) →
    ∀ clause ∈ Semijoin.filtersJson negated attached, property clause
  | [], _, _ => List.forall_mem_nil _
  | .clause (.filter body) negate :: rest, h, hallowed => by
    have hrest := hpasses.filtersJson negated rest h.2 fun join negate hmem =>
      hallowed join negate (List.mem_cons_of_mem _ hmem)
    rw [Semijoin.filtersJson]
    split
    · exact List.forall_mem_cons.mpr ⟨h.1, hrest⟩
    · exact hrest
  | .clause (.scored body) negate :: rest, h, hallowed =>
    hpasses.filtersJson negated rest h.2 fun join negate hmem =>
      hallowed join negate (List.mem_cons_of_mem _ hmem)
  | .join join negate :: rest, h, hallowed => by
    have hjoin := hpasses.toJson join h.1 (hallowed join negate List.mem_cons_self)
    have hrest := hpasses.filtersJson negated rest h.2 fun join negate hmem =>
      hallowed join negate (List.mem_cons_of_mem _ hmem)
    rw [Semijoin.filtersJson]
    split
    · exact List.forall_mem_cons.mpr ⟨hjoin, hrest⟩
    · exact hrest

end

/-- A property passes to the clauses of some joins if it passes through their negation. -/
theorem clauses_of_toJson {joins : List (Join × Bool)}
    (hnegated : ∀ clause, property clause → property (.boolean "must_not" [clause]))
    (h : ∀ join ∈ joins, property join.1.toJson) : ∀ clause ∈ clauses joins, property clause := by
  intro clause hclause
  obtain ⟨⟨join, negate⟩, hjoin, rfl⟩ := List.mem_map.mp hclause
  change property (join.outerJson negate)
  unfold outerJson
  split
  · exact hnegated _ (h _ hjoin)
  · exact h _ hjoin

end Join

end Semijoin
