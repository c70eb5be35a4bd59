import Semijoin.Proofs.Document.Reversal
import Semijoin.Proofs.Specification.Grammar

/-!
# Specifications with others among their clauses

A specification may have others in it. Where it has them only among its clauses, or in parts that
are not read, it has the same form before they are replaced as after it. This is told part by part:
which parts must not be hosts, and that the form of a part is then that of the rewritten one.
-/

namespace Semijoin

namespace Json

/-- Neither a value nor an element of it is a host. -/
def IsBare (value : Json) : Prop := ¬ value.IsHost ∧ ∀ entry ∈ value.items, ¬ entry.IsHost

/-- No part that an endpoint is read from is a host. Its clauses may be hosts. -/
structure PlainEndpoint (endpoint : Json) : Prop where
  self : ¬ endpoint.IsHost
  fields : ∀ field value, endpoint.member? field = some value → field ≠ "queries" → value.IsBare
  queries : ∀ value, endpoint.member? "queries" = some value → ¬ value.IsHost

/-- No part that a pair of endpoints is read from is a host, clauses apart. -/
structure PlainPair (pair : Json) : Prop where
  self : ¬ pair.IsHost
  endpoints : ∀ endpoint ∈ pair.items, endpoint.PlainEndpoint

/-- No part that a relation of a graph is read from is a host, clauses apart. -/
structure PlainRelation (relation : Json) : Prop where
  bare : relation.PlainPair
  held : ∀ pair, relation.member? "relation" = some pair → pair.PlainPair

/-- No part that a graph is read from is a host, clauses apart. -/
structure PlainGraph (graph : Json) : Prop where
  relations : ∀ relations, graph.member? "relations" = some relations →
    ¬ relations.IsHost ∧ ∀ relation ∈ relations.items, relation.PlainRelation
  queries : ∀ queries, graph.member? "queries" = some queries →
    ∀ member ∈ queries.members, ¬ member.2.IsHost

/-- No part that a step of a chain is read from is a host, clauses and branches apart. -/
structure PlainStep (step : Json) : Prop where
  self : ¬ step.IsHost
  group : ∀ group, step.member? "group" = some group → ¬ group.IsHost
  pair : step.member? "group" = none → ∀ pair, step.member? "relation" = some pair → pair.PlainPair

/-- No clause at the far end of a step is a host. -/
def PlainAtEnd (step : Json) : Prop :=
  step.member? "group" = none → ∀ joined filtered,
    step.member? "relation" = some (.array [joined, filtered]) →
    ∀ clauses, filtered.member? "queries" = some clauses → ∀ clause ∈ clauses.items, ¬ clause.IsHost

/-- No part that a chain is read from is a host, clauses apart; the clauses at the far end of its
last step are none either. -/
inductive PlainChain : Json → Prop
  | array {steps : List Json} (hsteps : ∀ step ∈ steps, step.PlainStep)
    (hbranches : ∀ step ∈ steps, ∀ branches, step.member? "group" = some (.array branches) →
      ∀ branch ∈ branches, PlainChain branch)
    (hlast : ∀ step, steps.getLast? = some step → step.PlainAtEnd) : PlainChain (.array steps)

end Json

/-- What stands under a label is plain. -/
def Label.Plain : Label → Json → Prop
  | .joinSet => Json.PlainGraph
  | .joinSequence => Json.PlainChain

namespace Json

variable {sentinel : String}

/-- A text that something is rewritten to was there before. -/
theorem RewritesTo.eq_of_isText {value rewritten : Json} (h : RewritesTo sentinel value rewritten)
    (htext : rewritten.IsText) : value = rewritten := by
  obtain ⟨text, rfl⟩ := htext
  exact h.eq_of_isScalar ⟨nofun, nofun⟩

/-- Texts that something is rewritten to were there before, unless hosts were. -/
theorem RewritesTo.eq_of_isTexts {value rewritten : Json} (h : RewritesTo sentinel value rewritten)
    (hbare : value.IsBare) (htexts : rewritten.IsTexts) : value = rewritten := by
  rcases htexts with htext | ⟨texts, rfl, hall⟩
  · exact h.eq_of_isText htext
  · obtain ⟨entries, count, rfl, hitems⟩ := h.exists_items hbare.1
    have hrewrites := forall₂_of_itemsImage? hitems hbare.2
    clear h hbare hitems
    congr 1
    induction hrewrites with
    | nil => rfl
    | cons hfirst _ ih =>
      obtain ⟨htext, hrest⟩ := List.forall_mem_cons.mp hall
      rw [hfirst.eq_of_isText htext, ih hrest]

/-- Clauses that something is rewritten to were clauses before, hosts among them. -/
theorem RewritesTo.isClauses {value rewritten : Json} (h : RewritesTo sentinel value rewritten)
    (hself : ¬ value.IsHost) (hclauses : rewritten.IsClauses) : value.IsClauses := by
  obtain ⟨clauses, rfl, hall⟩ := hclauses
  obtain ⟨items, count, rfl, hitems⟩ := h.exists_items hself
  exact ⟨items, rfl, isObject_of_itemsImage? hitems hall⟩

end Json

section Members

open Json

variable {sentinel : String} {members members' : List (String × Json)} {count : Nat}
  {field : String}

/-- A field that is optional in rewritten members was optional before if its form was the same. -/
theorem Field.Optional.of_rewritten {form : Json → Prop}
    (hmembers : membersImage? sentinel members = some (members', count))
    (hform : ∀ value rewritten, members.lookup field = some value →
      RewritesTo sentinel value rewritten → form rewritten → form value)
    (h : Field.Optional form members' field) : Field.Optional form members field := by
  intro value hvalue
  rcases lookup_membersImage? hmembers field with ⟨hnone, -⟩ | ⟨found, rewritten, hfound,
    hrewritten, hrewrites⟩
  · rw [hvalue] at hnone
    cases hnone
  · rw [hvalue] at hfound
    cases hfound
    rcases h rewritten hrewritten with rfl | hrewritten
    · exact .inl (hrewrites.eq_of_isScalar ⟨nofun, nofun⟩)
    · exact .inr (hform value rewritten hvalue hrewrites hrewritten)

/-- A text in rewritten members was there before. -/
theorem lookup_eq_string (hmembers : membersImage? sentinel members = some (members', count))
    {text : String} (h : members'.lookup field = some (.string text)) :
    members.lookup field = some (.string text) := by
  rcases lookup_membersImage? hmembers field with ⟨-, hnone⟩ | ⟨value, rewritten, hvalue,
    hrewritten, hrewrites⟩
  · rw [h] at hnone
    cases hnone
  · rw [h] at hrewritten
    cases hrewritten
    rw [hvalue, hrewrites.eq_of_isText ⟨text, rfl⟩]

/-- What stands in rewritten members was rewritten to it. -/
theorem exists_lookup_of_rewritten
    (hmembers : membersImage? sentinel members = some (members', count)) {rewritten : Json}
    (h : members'.lookup field = some rewritten) :
    ∃ value, members.lookup field = some value ∧ RewritesTo sentinel value rewritten := by
  rcases lookup_membersImage? hmembers field with ⟨-, hnone⟩ | ⟨value, found, hvalue, hfound,
    hrewrites⟩
  · rw [h] at hnone
    cases hnone
  · rw [h] at hfound
    cases hfound
    exact ⟨value, hvalue, hrewrites⟩

/-- A key that is not in rewritten members was not there before. -/
theorem lookup_eq_none_of_rewritten
    (hmembers : membersImage? sentinel members = some (members', count))
    (h : members'.lookup field = none) : members.lookup field = none := by
  rcases lookup_membersImage? hmembers field with ⟨hnone, -⟩ | ⟨value, rewritten, -, hrewritten, -⟩
  · exact hnone
  · rw [h] at hrewritten
    cases hrewritten

end Members

namespace Json

variable {sentinel : String}

/-- What is related to the elements of a list is related to each of them. -/
theorem exists_of_mem_forall₂ {α β : Type} {related : α → β → Prop} {first : List α}
    {second : List β} (h : List.Forall₂ related first second) {a : α} (ha : a ∈ first) :
    ∃ b ∈ second, related a b := by
  induction h with
  | nil => cases ha
  | @cons a' b _ _ hhead _ ih =>
    rcases List.mem_cons.mp ha with rfl | hrest
    · exact ⟨b, List.mem_cons_self, hhead⟩
    · obtain ⟨b', hb', hrelated⟩ := ih hrest
      exact ⟨b', List.mem_cons_of_mem _ hb', hrelated⟩

/-- A plain endpoint that is rewritten to an endpoint is one, and it names the same index first. -/
theorem PlainEndpoint.of_rewritten {endpoint rewritten : Json} (hplain : endpoint.PlainEndpoint)
    (hrewrites : RewritesTo sentinel endpoint rewritten) (h : rewritten.IsEndpoint) :
    endpoint.IsEndpoint ∧ endpoint.firstIndex? = rewritten.firstIndex? := by
  obtain ⟨members', rfl, hwritten⟩ := h
  obtain ⟨members, count, rfl, hmembers⟩ := hrewrites.exists_members
  have hkeys := keys_membersImage? hmembers
  have htext {field : String} (h : Field.Optional IsText members' field) :
      Field.Optional IsText members field :=
    h.of_rewritten hmembers fun value found _ hvalue hfound => by
      rwa [hvalue.eq_of_isText hfound]
  have htexts {field : String} (hfield : field ≠ "queries") {value found : Json}
      (hvalue : members.lookup field = some value) (hfound : RewritesTo sentinel value found)
      (h : found.IsTexts) : value = found :=
    hfound.eq_of_isTexts (hplain.fields field value hvalue hfield) h
  have hnames {field : String} (hfield : field ≠ "queries")
      (h : Field.Optional IsTexts members' field) : Field.Optional IsTexts members field :=
    h.of_rewritten hmembers fun value found hlookup hvalue hfound => by
      rwa [htexts hfield hlookup hvalue hfound]
  refine ⟨⟨members, rfl, fun member hmember => ?_, ?_, hnames (by decide) hwritten.indices,
    hnames (by decide) hwritten.types, htext hwritten.orderBy, ?_, htext hwritten.encoding, ?_⟩, ?_⟩
  · have hkey : member.1 ∈ members'.map Prod.fst := by
      rw [hkeys]
      exact List.mem_map_of_mem hmember
    obtain ⟨member', hmember', heq⟩ := List.mem_map.mp hkey
    rw [← heq]
    exact hwritten.known member' hmember'
  · obtain ⟨path, hpath, hne⟩ := hwritten.path
    exact ⟨path, lookup_eq_string hmembers hpath, hne⟩
  · refine hwritten.maxTerms.of_rewritten hmembers fun value found _ hvalue hfound => ?_
    obtain ⟨limit, rfl, hrange⟩ := hfound
    exact ⟨limit, hvalue.eq_of_isScalar ⟨nofun, nofun⟩, hrange⟩
  · refine hwritten.queries.of_rewritten hmembers fun value found hlookup hvalue hfound => ?_
    exact hvalue.isClauses (hplain.queries value hlookup) hfound
  · have hsame : members.lookup "indices" = members'.lookup "indices" := by
      rcases lookup_membersImage? hmembers "indices" with ⟨hnone, hnone'⟩ | ⟨value, found, hvalue,
        hfound, hrewrites⟩
      · rw [hnone, hnone']
      · rw [hvalue, hfound]
        rcases hwritten.indices found hfound with rfl | hnames
        · rw [hrewrites.eq_of_isScalar ⟨nofun, nofun⟩]
        · rw [htexts (by decide) hvalue hrewrites hnames]
    unfold firstIndex? member? Json.members
    rw [hsame]

/-- Clauses that are no hosts are none if they are rewritten to none. -/
theorem PlainEndpoint.withoutClauses {endpoint rewritten : Json} (hplain : endpoint.PlainEndpoint)
    (hclauses : ∀ clauses, endpoint.member? "queries" = some clauses →
      ∀ clause ∈ clauses.items, ¬ clause.IsHost)
    (hrewrites : RewritesTo sentinel endpoint rewritten) (hobject : rewritten.IsEndpoint)
    (h : rewritten.WithoutClauses) : endpoint.WithoutClauses := by
  obtain ⟨members', rfl, -⟩ := hobject
  obtain ⟨members, count, rfl, hmembers⟩ := hrewrites.exists_members
  intro value hvalue
  obtain ⟨hnone, -⟩ | ⟨found, rewritten, hfound, hrewritten, hfound'⟩ :=
    lookup_membersImage? hmembers "queries"
  · rw [show members.lookup "queries" = some value from hvalue] at hnone
    cases hnone
  · cases hfound.symm.trans hvalue
    rcases h rewritten hrewritten with rfl | rfl
    · exact .inl (hfound'.eq_of_isScalar ⟨nofun, nofun⟩)
    · obtain ⟨items, count, rfl, hitems⟩ := hfound'.exists_items (hplain.queries _ hfound)
      cases forall₂_of_itemsImage? hitems (hclauses _ hvalue)
      exact .inr rfl

/-- A plain pair that is rewritten to two endpoints is a pair of plain endpoints. -/
theorem PlainPair.of_rewritten {pair first' second' : Json} (hplain : pair.PlainPair)
    (hrewrites : RewritesTo sentinel pair (.array [first', second'])) :
    ∃ first second, pair = .array [first, second] ∧ first.PlainEndpoint ∧ second.PlainEndpoint ∧
      RewritesTo sentinel first first' ∧ RewritesTo sentinel second second' := by
  obtain ⟨items, count, rfl, hitems⟩ := hrewrites.exists_items hplain.self
  have hall := forall₂_of_itemsImage? hitems fun endpoint hmem =>
    (hplain.endpoints endpoint hmem).self
  cases hall with
  | @cons first _ _ _ hfirst hrest =>
    cases hrest with
    | @cons second _ _ _ hsecond hrest =>
      cases hrest
      exact ⟨first, second, rfl, hplain.endpoints first List.mem_cons_self,
        hplain.endpoints second (List.mem_cons_of_mem _ List.mem_cons_self), hfirst, hsecond⟩

/-- A plain relation that is rewritten to a relation is one, between endpoints with the same names
as before. -/
theorem PlainRelation.of_rewritten {relation rewritten first' second' : Json}
    (hplain : relation.PlainRelation) (hrewrites : RewritesTo sentinel relation rewritten)
    (h : IsRelation first' second' rewritten) :
    ∃ first second, IsRelation first second relation ∧
      first.firstIndex? = first'.firstIndex? ∧ second.firstIndex? = second'.firstIndex? := by
  cases h with
  | pair hfirst hsecond =>
    obtain ⟨first, second, rfl, hplain1, hplain2, hrewrites1, hrewrites2⟩ :=
      hplain.bare.of_rewritten hrewrites
    obtain ⟨hfirst, hindex1⟩ := hplain1.of_rewritten hrewrites1 hfirst
    obtain ⟨hsecond, hindex2⟩ := hplain2.of_rewritten hrewrites2 hsecond
    exact ⟨first, second, .pair hfirst hsecond, hindex1, hindex2⟩
  | @object members' hrelation hfirst hsecond hnegate =>
    obtain ⟨members, count, rfl, hmembers⟩ := hrewrites.exists_members
    obtain ⟨pair, hpair, hpair'⟩ := exists_lookup_of_rewritten hmembers hrelation
    obtain ⟨first, second, rfl, hplain1, hplain2, hrewrites1, hrewrites2⟩ :=
      (hplain.held pair hpair).of_rewritten hpair'
    obtain ⟨hfirst, hindex1⟩ := hplain1.of_rewritten hrewrites1 hfirst
    obtain ⟨hsecond, hindex2⟩ := hplain2.of_rewritten hrewrites2 hsecond
    refine ⟨first, second, .object hpair hfirst hsecond ?_, hindex1, hindex2⟩
    refine hnegate.of_rewritten hmembers fun value found _ hvalue hfound => ?_
    obtain ⟨flag, rfl⟩ := hfound
    exact ⟨flag, hvalue.eq_of_isScalar ⟨nofun, nofun⟩⟩

/-- A plain graph that is rewritten to a graph is one. -/
theorem PlainGraph.of_rewritten {graph rewritten : Json} (hplain : graph.PlainGraph)
    (hrewrites : RewritesTo sentinel graph rewritten) (h : rewritten.IsGraph) : graph.IsGraph := by
  cases h with
  | @object members' focus relations' hfocus hrelations hall hqueries =>
    obtain ⟨members, count, rfl, hmembers⟩ := hrewrites.exists_members
    obtain ⟨relations, hlookup, hrelations'⟩ := exists_lookup_of_rewritten hmembers hrelations
    obtain ⟨hself, hplainAll⟩ := hplain.relations relations hlookup
    obtain ⟨items, n, rfl, hitems⟩ := hrelations'.exists_items hself
    have hrewritesAll := forall₂_of_itemsImage? hitems fun relation hmem =>
      (hplainAll relation hmem).bare.self
    refine .object (lookup_eq_string hmembers hfocus) hlookup (fun relation hmem => ?_) ?_
    · obtain ⟨relation', hmem', hrelation'⟩ := exists_of_mem_forall₂ hrewritesAll hmem
      obtain ⟨first', second', hwritten, hloop⟩ := hall relation' hmem'
      obtain ⟨first, second, hwritten, hfirst, hsecond⟩ :=
        (hplainAll relation hmem).of_rewritten hrelation' hwritten
      refine ⟨first, second, hwritten, ?_⟩
      rintro ⟨index, hindex, hindex'⟩
      exact hloop ⟨index, hfirst.symm.trans hindex, hsecond.symm.trans hindex'⟩
    · refine hqueries.of_rewritten hmembers fun value found hvalue hfound hform => ?_
      obtain ⟨entries', rfl, hentries'⟩ := hform
      obtain ⟨entries, n, rfl, hentries⟩ := hfound.exists_members
      refine ⟨entries, rfl, fun entry hmem => ?_⟩
      obtain ⟨entry', hmem', -, hentry⟩ :=
        exists_of_mem_forall₂ (forall₂_of_membersImage? hentries) hmem
      rcases hentries' entry' hmem' with hnull | hclauses
      · rw [hnull] at hentry
        exact .inl (hentry.eq_of_isScalar ⟨nofun, nofun⟩)
      · exact .inr (hentry.isClauses (hplain.queries _ hvalue entry hmem) hclauses)

/-- A plain step that is rewritten to a step is one. If no clause at its far end is a host, there
are none when none are left. -/
theorem PlainStep.of_rewritten {step rewritten joined' filtered' : Json} (hplain : step.PlainStep)
    (hrewrites : RewritesTo sentinel step rewritten) (h : IsStep joined' filtered' rewritten) :
    ∃ joined filtered, IsStep joined filtered step ∧
      (step.PlainAtEnd → filtered'.WithoutClauses → filtered.WithoutClauses) := by
  cases h with
  | @object members' hgroup hrelation hjoined hfiltered hnegate =>
    obtain ⟨members, count, rfl, hmembers⟩ := hrewrites.exists_members
    have hgroup : members.lookup "group" = none := lookup_eq_none_of_rewritten hmembers hgroup
    obtain ⟨pair, hpair, hpair'⟩ := exists_lookup_of_rewritten hmembers hrelation
    obtain ⟨joined, filtered, rfl, hplain1, hplain2, hrewrites1, hrewrites2⟩ :=
      (hplain.pair hgroup pair hpair).of_rewritten hpair'
    have hjoined := (hplain1.of_rewritten hrewrites1 hjoined).1
    refine ⟨joined, filtered, .object hgroup hpair hjoined
      (hplain2.of_rewritten hrewrites2 hfiltered).1 ?_, fun hend hwithout => ?_⟩
    · refine hnegate.of_rewritten hmembers fun value found _ hvalue hfound => ?_
      obtain ⟨flag, rfl⟩ := hfound
      exact ⟨flag, hvalue.eq_of_isScalar ⟨nofun, nofun⟩⟩
    · exact hplain2.withoutClauses (hend hgroup joined filtered hpair) hrewrites2 hfiltered hwithout

/-- Plain steps that are rewritten to steps of a chain are such steps. -/
theorem areSteps_of_rewritten {steps rewritten : List Json}
    (hplain : ∀ step ∈ steps, step.PlainStep)
    (hlast : ∀ step, steps.getLast? = some step → step.PlainAtEnd)
    (hrewrites : List.Forall₂ (RewritesTo sentinel) steps rewritten) (h : AreSteps rewritten) :
    AreSteps steps := by
  induction h generalizing steps with
  | last hstep hclauses =>
    cases hrewrites with
    | @cons step _ _ _ hfirst hrest =>
      cases hrest
      obtain ⟨joined, filtered, hwritten, hwithout⟩ :=
        (hplain step List.mem_cons_self).of_rewritten hfirst hstep
      exact .last hwritten (hwithout (hlast step rfl) hclauses)
  | cons hstep hothers ih =>
    cases hrewrites with
    | @cons step _ rest _ hfirst hrest =>
      obtain ⟨hplainFirst, hplainRest⟩ := List.forall_mem_cons.mp hplain
      obtain ⟨joined, filtered, hwritten, -⟩ := hplainFirst.of_rewritten hfirst hstep
      refine .cons hwritten (ih hplainRest (fun last hgetLast => hlast last ?_) hrest)
      rw [List.getLast?_cons, hgetLast]
      rfl

/-- A plain chain that is rewritten to a chain is one. -/
theorem PlainChain.of_rewritten {chain rewritten : Json} (hplain : chain.PlainChain)
    (hrewrites : RewritesTo sentinel chain rewritten) (h : rewritten.IsChain) : chain.IsChain := by
  induction h generalizing chain with
  | steps hsteps =>
    cases hplain with
    | array hplainSteps _ hlast =>
      obtain ⟨_, count, ⟨⟩, hitems⟩ := hrewrites.exists_items (not_isHost_array _)
      have hall := forall₂_of_itemsImage? hitems fun step hmem => (hplainSteps step hmem).self
      exact .steps (areSteps_of_rewritten hplainSteps hlast hall hsteps)
  | @grouped members' branches' rest' hgroup hbranches hall hrest ih =>
    cases hplain with
    | @array steps hplainSteps hplainBranches hlast =>
      obtain ⟨_, count, ⟨⟩, hitems⟩ := hrewrites.exists_items (not_isHost_array _)
      have hrewritesAll :=
        forall₂_of_itemsImage? hitems fun step hmem => (hplainSteps step hmem).self
      cases hrewritesAll with
      | @cons first _ rest _ hfirst hothers =>
        obtain ⟨members, n, rfl, hmembers⟩ := hfirst.exists_members
        obtain ⟨group, hlookup, hgroup'⟩ := exists_lookup_of_rewritten hmembers hgroup
        obtain ⟨hplainFirst, hplainRest⟩ := List.forall_mem_cons.mp hplainSteps
        obtain ⟨branches, m, rfl, hbranchItems⟩ :=
          hgroup'.exists_items (hplainFirst.group group hlookup)
        have hplainAll := hplainBranches _ List.mem_cons_self branches hlookup
        have hrewritesBranches := forall₂_of_itemsImage? hbranchItems fun branch hmem => by
          cases hplainAll branch hmem with
          | array => exact not_isHost_array _
        refine .grouped hlookup ?_ (fun branch hmem => ?_)
          (areSteps_of_rewritten hplainRest (fun last hgetLast => hlast last ?_) hothers hrest)
        · rintro rfl
          cases hrewritesBranches
          exact hbranches rfl
        · obtain ⟨branch', hmem', hbranch⟩ := exists_of_mem_forall₂ hrewritesBranches hmem
          exact ih branch' hmem' (hplainAll branch hmem) hbranch
        · rw [List.getLast?_cons, hgetLast]
          rfl

/-- Scalars are bare. -/
theorem IsScalar.isBare {value : Json} (h : value.IsScalar) : value.IsBare := by
  constructor
  · rintro ⟨label, specification, rfl⟩
    exact h.2 _ rfl
  · cases value with
    | array items => exact absurd rfl (h.1 items)
    | null | bool _ | number _ | string _ | object _ => exact List.forall_mem_nil _

/-- Null is bare. -/
theorem isBare_null : Json.null.IsBare := IsScalar.isBare ⟨nofun, nofun⟩

/-- A text is a scalar. -/
theorem IsText.isScalar {value : Json} (h : value.IsText) : value.IsScalar := by
  obtain ⟨text, rfl⟩ := h
  exact ⟨nofun, nofun⟩

/-- A limit is a scalar. -/
theorem IsLimit.isScalar {value : Json} (h : value.IsLimit) : value.IsScalar := by
  obtain ⟨limit, rfl, -⟩ := h
  exact ⟨nofun, nofun⟩

/-- Texts are bare. -/
theorem IsTexts.isBare {value : Json} (h : value.IsTexts) : value.IsBare := by
  rcases h with h | ⟨entries, rfl, hall⟩
  · exact h.isScalar.isBare
  · exact ⟨not_isHost_array entries, fun entry hentry => (hall entry hentry).isScalar.isBare.1⟩

/-- What is optional is bare if its form says so. -/
theorem isBare_of_optional {form : Json → Prop} {members : List (String × Json)} {field : String}
    (h : Field.Optional form members field) (hform : ∀ value, form value → value.IsBare)
    {value : Json} (hvalue : members.lookup field = some value) : value.IsBare := by
  rcases h value hvalue with rfl | h
  · exact IsScalar.isBare ⟨nofun, nofun⟩
  · exact hform value h

/-- An endpoint is plain as it is written. -/
theorem IsEndpoint.plain {endpoint : Json} (h : endpoint.IsEndpoint) : endpoint.PlainEndpoint := by
  obtain ⟨members, rfl, hwritten⟩ := h
  obtain ⟨path, hpath, -⟩ := hwritten.path
  refine ⟨not_isHost_of_lookup hpath (by rintro (_ | _) <;> decide),
    fun field value hvalue hne => ?_, fun value hvalue => ?_⟩
  · change members.lookup field = some value at hvalue
    have hknown := hwritten.known _ (mem_of_lookup hvalue)
    simp only [Endpoint.fields, List.mem_cons, List.not_mem_nil, or_false] at hknown
    rcases hknown with rfl | rfl | rfl | rfl | rfl | rfl | rfl
    · cases hpath.symm.trans hvalue
      exact IsScalar.isBare ⟨nofun, nofun⟩
    · exact isBare_of_optional hwritten.indices (fun _ => IsTexts.isBare) hvalue
    · exact isBare_of_optional hwritten.types (fun _ => IsTexts.isBare) hvalue
    · exact isBare_of_optional hwritten.orderBy (fun _ h => h.isScalar.isBare) hvalue
    · exact isBare_of_optional hwritten.maxTerms (fun _ h => h.isScalar.isBare) hvalue
    · exact isBare_of_optional hwritten.encoding (fun _ h => h.isScalar.isBare) hvalue
    · exact absurd rfl hne
  · rcases hwritten.queries value hvalue with rfl | ⟨clauses, rfl, -⟩
    · exact isBare_null.1
    · exact not_isHost_array clauses

/-- A pair of endpoints is plain as it is written. -/
theorem plainPair_of_isEndpoint {first second : Json} (hfirst : first.IsEndpoint)
    (hsecond : second.IsEndpoint) : (Json.array [first, second]).PlainPair := by
  refine ⟨not_isHost_array _, fun endpoint hmem => ?_⟩
  simp only [items, List.mem_cons, List.not_mem_nil, or_false] at hmem
  rcases hmem with rfl | rfl
  · exact hfirst.plain
  · exact hsecond.plain

/-- A relation is plain as it is written. -/
theorem IsRelation.plain {first second relation : Json} (h : IsRelation first second relation) :
    relation.PlainRelation := by
  cases h with
  | pair hfirst hsecond => exact ⟨plainPair_of_isEndpoint hfirst hsecond, nofun⟩
  | object hrelation hfirst hsecond _ =>
    refine ⟨⟨not_isHost_of_lookup hrelation (by rintro (_ | _) <;> decide), nofun⟩,
      fun pair hpair => ?_⟩
    cases hrelation.symm.trans hpair
    exact plainPair_of_isEndpoint hfirst hsecond

/-- A graph is plain as it is written. -/
theorem IsGraph.plain {graph : Json} (h : graph.IsGraph) : graph.PlainGraph := by
  cases h with
  | object _ hrelations hall hqueries =>
    refine ⟨fun relations hlookup => ?_, fun queries hlookup => ?_⟩
    · cases hrelations.symm.trans hlookup
      refine ⟨not_isHost_array _, fun relation hmem => ?_⟩
      obtain ⟨first, second, hwritten, -⟩ := hall relation hmem
      exact hwritten.plain
    · rcases hqueries queries hlookup with rfl | ⟨entries, rfl, hentries⟩
      · exact List.forall_mem_nil _
      · intro entry hmem
        rcases hentries entry hmem with hnull | ⟨clauses, hclauses, -⟩
        · rw [hnull]
          exact isBare_null.1
        · rw [hclauses]
          exact not_isHost_array clauses

/-- A step is plain as it is written. -/
theorem IsStep.plain {joined filtered step : Json} (h : IsStep joined filtered step) :
    step.PlainStep := by
  cases h with
  | object hgroup hrelation hjoined hfiltered _ =>
    refine ⟨not_isHost_of_lookup hrelation (by rintro (_ | _) <;> decide), fun group hlookup => ?_,
      fun _ pair hpair => ?_⟩
    · cases hgroup.symm.trans hlookup
    · cases hrelation.symm.trans hpair
      exact plainPair_of_isEndpoint hjoined hfiltered

/-- Steps of a chain are plain as they are written, and none is a group. -/
theorem AreSteps.plain {steps : List Json} (h : AreSteps steps) :
    (∀ step ∈ steps, step.PlainStep ∧ step.member? "group" = none) ∧
      ∃ last, steps.getLast? = some last ∧ last.PlainAtEnd := by
  have hgroup {joined filtered step : Json} (h : IsStep joined filtered step) :
      step.member? "group" = none := by
    cases h with
    | object hgroup _ _ _ _ => exact hgroup
  induction h with
  | @last step joined filtered hstep hclauses =>
    refine ⟨List.forall_mem_singleton.mpr ⟨hstep.plain, hgroup hstep⟩, step, rfl, ?_⟩
    intro _ joined' filtered' hrelation clauses hqueries
    cases hstep with
    | object _ hrelation' _ _ _ =>
      cases hrelation'.symm.trans hrelation
      rcases hclauses clauses hqueries with rfl | rfl <;> exact List.forall_mem_nil _
  | @cons step joined filtered rest hstep _ ih =>
    obtain ⟨hall, last, hlast, hend⟩ := ih
    refine ⟨List.forall_mem_cons.mpr ⟨⟨hstep.plain, hgroup hstep⟩, hall⟩, last, ?_, hend⟩
    rw [List.getLast?_cons, hlast]
    rfl

/-- A chain is plain as it is written. -/
theorem IsChain.plain {chain : Json} (h : chain.IsChain) : chain.PlainChain := by
  induction h with
  | steps hsteps =>
    obtain ⟨hall, last, hlast, hend⟩ := hsteps.plain
    refine .array (fun step hmem => (hall step hmem).1) (fun step hmem branches hgroup => ?_)
      (fun step hstep => ?_)
    · cases (hall step hmem).2.symm.trans hgroup
    · cases hlast.symm.trans hstep
      exact hend
  | @grouped members branches rest hgroup hbranches hall hrest ih =>
    obtain ⟨hsteps, last, hlast, hend⟩ := hrest.plain
    refine .array (List.forall_mem_cons.mpr ⟨?_, fun step hmem => (hsteps step hmem).1⟩)
      (List.forall_mem_cons.mpr ⟨fun found hfound => ?_, fun step hmem found hfound => ?_⟩)
      (fun step hstep => ?_)
    · refine ⟨not_isHost_of_lookup hgroup (by rintro (_ | _) <;> decide), fun group hlookup => ?_,
        fun hnone => ?_⟩
      · cases hgroup.symm.trans hlookup
        exact not_isHost_array branches
      · cases hgroup.symm.trans hnone
    · cases hgroup.symm.trans hfound
      exact ih
    · cases (hsteps step hmem).2.symm.trans hfound
    · rw [List.getLast?_cons, hlast] at hstep
      cases hstep
      exact hend

end Json

/-- What stands under a label and is rewritten to something of its form has this form before exactly
if it is plain. -/
theorem Label.form_iff_plain (label : Label) {sentinel : String} {value rewritten : Json}
    (hrewrites : value.RewritesTo sentinel rewritten) (h : label.Form rewritten) :
    label.Form value ↔ label.Plain value := by
  cases label with
  | joinSet => exact ⟨Json.IsGraph.plain, fun hplain => hplain.of_rewritten hrewrites h⟩
  | joinSequence => exact ⟨Json.IsChain.plain, fun hplain => hplain.of_rewritten hrewrites h⟩

end Semijoin
