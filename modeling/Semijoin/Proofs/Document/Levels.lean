import Semijoin.Proofs.Document.Rereading
import Semijoin.Proofs.Document.Unlimited

/-!
# How deep the joins in a document nest

The limit on the nesting of joins is meant for whole documents, but every specification is held to
it by itself. What a specification brings along as clauses may hold joins already, those that the
specifications nested in it became. So the joins of an expanded document nest within the limit for
every specification that is around another one. Only without nested specifications is the limit
that of the document.
-/

namespace Semijoin

namespace Json

mutual

/-- All keys of the objects in a value. -/
def allKeys : Json → List String
  | .array items => itemsKeys items
  | .object members => membersKeys members
  | _ => []

/-- All keys of the objects in some elements. -/
def itemsKeys : List Json → List String
  | [] => []
  | item :: rest => item.allKeys ++ itemsKeys rest

/-- The keys of some members, and all keys of the objects in them. -/
def membersKeys : List (String × Json) → List String
  | [] => []
  | (key, value) :: rest => key :: (value.allKeys ++ membersKeys rest)

end

mutual

/-- How many specifications of a value are nested in one another. -/
def hostLevels : Json → Nat
  | .array items => itemsHostLevels items
  | .object members => membersHostLevels members + if (hosted? members).isSome then 1 else 0
  | _ => 0

/-- How many specifications are nested in one another in some elements. -/
def itemsHostLevels : List Json → Nat
  | [] => 0
  | item :: rest => max item.hostLevels (itemsHostLevels rest)

/-- How many specifications are nested in one another in some members. -/
def membersHostLevels : List (String × Json) → Nat
  | [] => 0
  | (_, value) :: rest => max value.hostLevels (membersHostLevels rest)

end

/-- The keys of some members are among all keys. -/
theorem keys_subset_membersKeys (members : List (String × Json)) :
    members.map Prod.fst ⊆ membersKeys members := by
  induction members with
  | nil => exact List.nil_subset _
  | cons member rest ih =>
    rw [List.map_cons, membersKeys]
    exact List.cons_subset_cons _ (List.subset_append_of_subset_right _ ih)

/-- Elements keep their joins when they are put into an array. -/
theorem joinsWithin_asItems {bound : Nat} {image : Image} (h : image.asValue.JoinsWithin bound) :
    ∀ item ∈ image.asItems, item.JoinsWithin bound := by
  cases image with
  | value value => exact List.forall_mem_singleton.mpr h
  | clauses clauses => exact itemsJoinLevels_le_iff.mp h

variable {sentinel : String}

/-- The clauses of a specification nest its joins on top of those that it brings along. -/
theorem joinsWithin_unlimitedClauses? {bound : Nat} {label : Label} {value : Json}
    (hvalue : value.JoinsWithin bound) {clauses : List Json} {depth : Nat}
    (h : Specification.unlimitedClauses? sentinel label value = some (clauses, depth)) :
    ∀ clause ∈ clauses, clause.JoinsWithin (depth + bound) := by
  obtain ⟨specification, tier, hread, htier, rfl, rfl⟩ :=
    Specification.exists_of_unlimitedClauses? h
  have hcarries := Specification.carries_of_read (passesDown_joinsWithin bound) hvalue hread
  have hdepth := Specification.maxDepth_le_of_unlimited htier
  intro clause hclause
  exact Nat.le_trans (Join.joinsWithin_clauses (hcarries.unlimited htier) clause hclause)
    (Nat.add_le_add_right hdepth bound)

/-- Rewriting the members of an object without the limit keeps their keys. -/
theorem keys_unlimitedMembers? {members members' : List (String × Json)} {depth : Nat}
    (h : unlimitedMembers? sentinel members = some (members', depth)) :
    members'.map Prod.fst = members.map Prod.fst := by
  induction members generalizing members' depth with
  | nil =>
    cases h
    rfl
  | cons member rest ih =>
    rw [unlimitedMembers?] at h
    obtain ⟨_, -, h⟩ := Option.bind_eq_some_iff.mp h
    obtain ⟨_, hothers, h⟩ := Option.bind_eq_some_iff.mp h
    cases h
    rw [List.map_cons, List.map_cons, ih hothers]

/-- An object whose members become those of a host is a host. -/
theorem hostLevels_of_hosted? {members members' : List (String × Json)}
    (hkeys : members'.map Prod.fst = members.map Prod.fst) {found : Label × Json}
    (hhosted : hosted? members' = some found) :
    (object members).hostLevels = membersHostLevels members + 1 := by
  rw [hosted?_eq_some_iff.mp hhosted] at hkeys
  obtain ⟨⟨key, written⟩, rfl, hkey⟩ := List.map_eq_singleton_iff.mp hkeys.symm
  dsimp only at hkey
  rw [hostLevels, hkey, hosted?_eq_some_iff.mpr rfl]
  rfl

mutual

/-- Without joins to begin with, a rewritten value nests as many joins as its deepest specification
for every specification around another one. -/
theorem joinsWithin_unlimitedImage? : (value : Json) → "filterjoin" ∉ value.allKeys →
    ∀ {image : Image} {depth : Nat}, unlimitedImage? sentinel value = some (image, depth) →
    image.asValue.JoinsWithin (depth * value.hostLevels)
  | .array items, hkeys, image, depth, h => by
    rw [unlimitedImage?] at h
    obtain ⟨⟨items', m⟩, hitems, h⟩ := Option.bind_eq_some_iff.mp h
    cases h
    exact itemsJoinLevels_le_iff.mpr (joinsWithin_unlimitedItems? items hkeys hitems)
  | .object members, hkeys, image, depth, h => by
    rw [unlimitedImage?] at h
    obtain ⟨⟨members', m⟩, hmembers, h⟩ := Option.bind_eq_some_iff.mp h
    have hsame := keys_unlimitedMembers? hmembers
    have hno : "filterjoin" ∉ members'.map Prod.fst :=
      hsame ▸ fun hmem => hkeys (keys_subset_membersKeys members hmem)
    have hwithin := joinsWithin_object hno (joinsWithin_unlimitedMembers? members hkeys hmembers)
    dsimp only at h
    cases hhosted : hosted? members' with
    | none =>
      rw [hhosted] at h
      cases h
      exact Nat.le_trans hwithin (Nat.mul_le_mul_left depth (Nat.le_add_right _ _))
    | some found =>
      obtain ⟨label, specification⟩ := found
      rw [hhosted] at h
      obtain ⟨⟨clauses, own⟩, hclauses, h⟩ := Option.bind_eq_some_iff.mp h
      cases h
      rw [hosted?_eq_some_iff.mp hhosted] at hwithin
      have hspecification := (passesDown_joinsWithin _).member hwithin _ List.mem_cons_self
      have hlevels : own + m * membersHostLevels members ≤
          max own m * (membersHostLevels members + 1) := by
        rw [Nat.mul_succ, Nat.add_comm]
        exact Nat.add_le_add (Nat.mul_le_mul_right _ (Nat.le_max_right _ _)) (Nat.le_max_left _ _)
      rw [hostLevels_of_hosted? hsame hhosted]
      refine itemsJoinLevels_le_iff.mpr fun clause hclause => ?_
      exact Nat.le_trans (joinsWithin_unlimitedClauses? hspecification hclauses clause hclause)
        hlevels
  | .null, _, image, depth, h | .bool _, _, image, depth, h | .number _, _, image, depth, h
  | .string _, _, image, depth, h => by
    cases h
    exact Nat.zero_le _

/-- Rewritten elements nest as many joins as the deepest specification in them for every
specification around another one. -/
theorem joinsWithin_unlimitedItems? : (items : List Json) → "filterjoin" ∉ itemsKeys items →
    ∀ {items' : List Json} {depth : Nat}, unlimitedItems? sentinel items = some (items', depth) →
    ∀ item ∈ items', item.JoinsWithin (depth * itemsHostLevels items)
  | [], _, items', depth, h => by
    cases h
    exact List.forall_mem_nil _
  | item :: rest, hkeys, items', depth, h => by
    rw [itemsKeys, List.mem_append, not_or] at hkeys
    rw [unlimitedItems?] at h
    obtain ⟨⟨first, m⟩, hfirst, h⟩ := Option.bind_eq_some_iff.mp h
    obtain ⟨⟨others, n⟩, hothers, h⟩ := Option.bind_eq_some_iff.mp h
    cases h
    have hitem := joinsWithin_asItems (joinsWithin_unlimitedImage? item hkeys.1 hfirst)
    have hrest := joinsWithin_unlimitedItems? rest hkeys.2 hothers
    refine List.forall_mem_append.mpr ⟨fun one hone => ?_, fun one hone => ?_⟩
    · exact Nat.le_trans (hitem one hone)
        (Nat.mul_le_mul (Nat.le_max_left _ _) (Nat.le_max_left _ _))
    · exact Nat.le_trans (hrest one hone)
        (Nat.mul_le_mul (Nat.le_max_right _ _) (Nat.le_max_right _ _))

/-- Rewritten members nest as many joins as the deepest specification in them for every
specification around another one. -/
theorem joinsWithin_unlimitedMembers? : (members : List (String × Json)) →
    "filterjoin" ∉ membersKeys members → ∀ {members' : List (String × Json)} {depth : Nat},
    unlimitedMembers? sentinel members = some (members', depth) →
    ∀ member ∈ members', member.2.JoinsWithin (depth * membersHostLevels members)
  | [], _, members', depth, h => by
    cases h
    exact List.forall_mem_nil _
  | (key, value) :: rest, hkeys, members', depth, h => by
    rw [membersKeys, List.mem_cons, List.mem_append, not_or, not_or] at hkeys
    rw [unlimitedMembers?] at h
    obtain ⟨⟨first, m⟩, hfirst, h⟩ := Option.bind_eq_some_iff.mp h
    obtain ⟨⟨others, n⟩, hothers, h⟩ := Option.bind_eq_some_iff.mp h
    cases h
    have hvalue := joinsWithin_unlimitedImage? value hkeys.2.1 hfirst
    have hrest := joinsWithin_unlimitedMembers? rest hkeys.2.2 hothers
    refine List.forall_mem_cons.mpr ⟨?_, fun member hmember => ?_⟩
    · exact Nat.le_trans hvalue (Nat.mul_le_mul (Nat.le_max_left _ _) (Nat.le_max_left _ _))
    · exact Nat.le_trans (hrest member hmember)
        (Nat.mul_le_mul (Nat.le_max_right _ _) (Nat.le_max_right _ _))

end

end Json

namespace Document

variable {document : Json}

/-- The joins that a document is rewritten to without the limit nest as deep as its deepest
specification for every specification around another one. -/
theorem joinLevels_unlimited?_le {sentinel : String} (hkeys : "filterjoin" ∉ document.allKeys)
    {unlimited : Json} {depth : Nat}
    (h : document.unlimited? sentinel = some (unlimited, depth)) :
    unlimited.joinLevels ≤ depth * document.hostLevels := by
  obtain ⟨⟨image, _⟩, himage, heq⟩ := Option.map_eq_some_iff.mp h
  cases heq
  exact Json.joinsWithin_unlimitedImage? document hkeys himage

/-- **How deep the joins of a document nest.** Let a document hold no joins. If it expands, its
joins nest at most as deep as the limit for every specification around another one, so within the
limit itself if no specification is nested in another one. Let further no object have a label beside
another key. Without the limit the joins would nest at most as deep as the deepest specification for
every specification around another one. The document expands to these joins exactly if its deepest
specification is within the limit, and is refused as too deep otherwise. Every document that has
been read is ordered. -/
theorem joinLevels_expand_le (sentinel : String) (hordered : document.IsOrdered)
    (hkeys : "filterjoin" ∉ document.allKeys) :
    (∀ report, (expand sentinel document).outcome.result = .ok report →
      (expand sentinel document).document.joinLevels ≤ maxJoinDepth * document.hostLevels) ∧
    (document.Uncrowded →
      match document.unlimited? sentinel with
      | none => ∃ fault, (expand sentinel document).outcome.result = .error fault
      | some (unlimited, depth) =>
        unlimited.joinLevels ≤ depth * document.hostLevels ∧
        (depth ≤ maxJoinDepth →
          (∃ report, (expand sentinel document).outcome.result = .ok report) ∧
            (expand sentinel document).document = unlimited) ∧
        (maxJoinDepth < depth → ∃ place, (expand sentinel document).outcome.result =
            .error (.malformed .tooDeep place) ∧
          Malformation.tooDeep.reason = "joins may not nest more than 128 levels deep")) := by
  constructor
  · intro report hexpand
    obtain ⟨depth, hle, hunlimited⟩ := exists_unlimited?_of_expand hordered hexpand
    exact Nat.le_trans (joinLevels_unlimited?_le hkeys hunlimited)
      (Nat.mul_le_mul_right _ hle)
  · intro huncrowded
    cases hunlimited : document.unlimited? sentinel with
    | none =>
      cases hexpand : (expand sentinel document).outcome.result with
      | error fault => exact ⟨fault, rfl⟩
      | ok report =>
        obtain ⟨depth, -, hsome⟩ := exists_unlimited?_of_expand hordered hexpand
        rw [hunlimited] at hsome
        cases hsome
    | some result =>
      obtain ⟨unlimited, depth⟩ := result
      refine ⟨joinLevels_unlimited?_le hkeys hunlimited,
        expand_of_unlimited? hordered huncrowded hunlimited, fun hlt => ?_⟩
      obtain ⟨place, hfault⟩ :=
        expand_tooDeep_of_unlimited? hordered huncrowded hunlimited hlt
      exact ⟨place, hfault, rfl⟩

/-- Of two chains of which one is nested in the other the joins nest within twice the limit, and a
chain that is longer than the limit is refused. -/
theorem joinLevels_expand_chainHosts :
    nestedHosts.IsOrdered ∧ "filterjoin" ∉ nestedHosts.allKeys ∧
      (expand ".filterjoin" nestedHosts).document.joinLevels ≤ maxJoinDepth * 2 ∧
    (chainHost 129).IsOrdered ∧ "filterjoin" ∉ (chainHost 129).allKeys ∧
      (chainHost 129).Uncrowded ∧
      ∃ place, (expand ".filterjoin" (chainHost 129)).outcome.result =
        .error (.malformed .tooDeep place) := by
  have hnested : nestedHosts.IsOrdered := by decide +kernel
  have hnestedKeys : "filterjoin" ∉ nestedHosts.allKeys := by decide +kernel
  have hexpand : (expand ".filterjoin" nestedHosts).outcome.result = .ok ⟨0, 2, 2⟩ :=
    eq_ok_of_toOption (by decide +kernel)
  have hchain : (chainHost 129).IsOrdered := by decide +kernel
  have hchainKeys : "filterjoin" ∉ (chainHost 129).allKeys := by decide +kernel
  have huncrowded : (chainHost 129).Uncrowded := by decide +kernel
  have hdepth : ((chainHost 129).unlimited? ".filterjoin").map Prod.snd = some 129 := by
    decide +kernel
  have hlevels := (joinLevels_expand_le ".filterjoin" hnested hnestedKeys).1 _ hexpand
  refine ⟨hnested, hnestedKeys, hlevels, ?_⟩
  -- The chain is not looked into any more.
  generalize chainHost 129 = document at *
  obtain ⟨⟨unlimited, depth⟩, hunlimited, rfl⟩ := Option.map_eq_some_iff.mp hdepth
  have hrefused := (joinLevels_expand_le ".filterjoin" hchain hchainKeys).2 huncrowded
  rw [hunlimited] at hrefused
  obtain ⟨place, hfault, -⟩ := hrefused.2.2 (by decide)
  exact ⟨hchain, hchainKeys, huncrowded, place, hfault⟩

/-- A step that joins an index with itself, with clauses for the side that it collects from. -/
def selfStep (queries : List Json) : Json :=
  .object [("relation", .array
    [.object [("indices", .string "a"), ("path", .string "id"), ("queries", .array queries)],
      .object [("indices", .string "a"), ("path", .string "parent")]])]

/-- A chain of as many joins as may nest, with a host among the clauses of the innermost. -/
def buriedHost : Json :=
  .object [("join_sequence", .array (selfStep [chainHost 1] :: List.replicate 127 (selfStep [])))]

/-- Each of the two chains is within the limit, and their joins together are not. -/
theorem joinLevels_expand_buriedHost :
    buriedHost.IsOrdered ∧ "filterjoin" ∉ buriedHost.allKeys ∧
      (expand ".filterjoin" buriedHost).outcome.result = .ok ⟨0, 2, 2⟩ ∧
      maxJoinDepth < (expand ".filterjoin" buriedHost).document.joinLevels := by
  refine ⟨by decide +kernel, by decide +kernel, eq_ok_of_toOption (by decide +kernel), ?_⟩
  decide +kernel

end Document

end Semijoin
