import Semijoin.Proofs.Document.Turn
import Semijoin.Proofs.Specification.Unlimited

/-!
# Rewriting a document without the limit

A document can be rewritten however deep the joins of its specifications nest. The limit is on each
specification by itself: a document expands exactly when the deepest specification is within the
limit, and is refused as too deep otherwise.
-/

namespace Semijoin

open Json

namespace Specification

/-- The clauses of the specification that a value is under a label, however deep its joins nest, and
how deep that is. -/
def unlimitedClauses? (sentinel : String) (label : Label) (value : Json) :
    Option (List Json × Nat) :=
  ((read label Pointer.root value) >>= fun specification =>
    (specification.unlimited sentinel) >>= fun tier =>
      .ok (Join.clauses tier.joins, tier.depth)).toOption

variable {sentinel : String} {label : Label} {value : Json} {clauses : List Json} {depth : Nat}

/-- Clauses without the limit are those of a specification that can be read. -/
theorem exists_of_unlimitedClauses?
    (h : unlimitedClauses? sentinel label value = some (clauses, depth)) :
    ∃ specification tier, read label Pointer.root value = .ok specification ∧
      specification.unlimited sentinel = .ok tier ∧ clauses = Join.clauses tier.joins ∧
      depth = tier.depth := by
  obtain ⟨specification, hread, h⟩ := bind_eq_ok (eq_ok_of_toOption h)
  obtain ⟨tier, htier, h⟩ := bind_eq_ok h
  cases h
  exact ⟨specification, tier, hread, htier, rfl, rfl⟩

/-- Clauses that nest joins within the limit are those that are compiled. -/
theorem clauses?_of_unlimitedClauses?
    (h : unlimitedClauses? sentinel label value = some (clauses, depth))
    (hle : depth ≤ maxJoinDepth) : clauses? sentinel label value = some clauses := by
  obtain ⟨specification, tier, hread, htier, rfl, rfl⟩ := exists_of_unlimitedClauses? h
  have hlimited := limited_compile (check_eq_ok_of_read hread) htier
  rw [clauses?, hread]
  change (specification.compile sentinel).result.toOption = _
  rw [hlimited.within hle]
  rfl

/-- Clauses that are compiled nest the joins of their specification within the limit. -/
theorem exists_unlimitedClauses?_of_clauses? (h : clauses? sentinel label value = some clauses) :
    ∃ depth ≤ maxJoinDepth, unlimitedClauses? sentinel label value = some (clauses, depth) := by
  obtain ⟨specification, hread, hcompile⟩ := bind_eq_ok (eq_ok_of_toOption h)
  have hcheck := check_eq_ok_of_read hread
  cases hunlimited : specification.unlimited sentinel with
  | error fault =>
    rw [compile_eq_error hcheck hunlimited] at hcompile
    cases hcompile
  | ok tier =>
    have hlimited := limited_compile hcheck hunlimited
    rcases Nat.lt_or_ge maxJoinDepth tier.depth with hlt | hle
    · obtain ⟨origin, hfault⟩ := hlimited.beyond hlt
      rw [hfault] at hcompile
      cases hcompile
    · rw [hlimited.within hle] at hcompile
      cases hcompile
      refine ⟨tier.depth, hle, ?_⟩
      rw [unlimitedClauses?, hread]
      change (specification.unlimited sentinel >>= _).toOption = _
      rw [hunlimited]
      rfl

/-- A specification that has clauses without the limit is only refused because its joins nest too
deep, wherever it stands. -/
theorem tooDeep_of_unlimitedClauses?
    (h : unlimitedClauses? sentinel label value = some (clauses, depth)) {place : Pointer}
    {fault : Fault} (hfault : (read label place value >>= fun specification =>
      (specification.compile sentinel).result) = .error fault) : fault.TooDeep := by
  obtain ⟨specification, tier, hread, htier, -, -⟩ := exists_of_unlimitedClauses? h
  have hmoved := read_under place label Pointer.root value
  rw [show place ++ Pointer.root = place from List.append_nil place, hread] at hmoved
  rw [hmoved] at hfault
  change ((specification.under place).compile sentinel).result = _ at hfault
  rw [compile_under] at hfault
  have hlimited := limited_compile (check_eq_ok_of_read hread) htier
  rcases Nat.lt_or_ge maxJoinDepth tier.depth with hlt | hle
  · obtain ⟨origin, hdeep⟩ := hlimited.beyond hlt
    rw [hdeep] at hfault
    cases hfault
    exact ⟨_, rfl⟩
  · rw [hlimited.within hle] at hfault
    cases hfault

end Specification

namespace Json

mutual

/-- Rewrites a value, however deep joins nest. How deep the joins of the deepest specification in it
nest stands beside the image. -/
def unlimitedImage? (sentinel : String) : Json → Option (Image × Nat)
  | .array items => do
    let (items, depth) ← unlimitedItems? sentinel items
    return (.value (.array items), depth)
  | .object members => do
    let (members, depth) ← unlimitedMembers? sentinel members
    match hosted? members with
    | some (label, specification) =>
      let (clauses, own) ← Specification.unlimitedClauses? sentinel label specification
      return (.clauses clauses, max own depth)
    | none => return (.value (.object members), depth)
  | value => return (.value value, 0)

/-- Rewrites the elements of an array, however deep joins nest. -/
def unlimitedItems? (sentinel : String) : List Json → Option (List Json × Nat)
  | [] => return ([], 0)
  | item :: rest => do
    let (first, m) ← unlimitedImage? sentinel item
    let (others, n) ← unlimitedItems? sentinel rest
    return (first.asItems ++ others, max m n)

/-- Rewrites the members of an object, however deep joins nest. -/
def unlimitedMembers? (sentinel : String) :
    List (String × Json) → Option (List (String × Json) × Nat)
  | [] => return ([], 0)
  | (key, value) :: rest => do
    let (first, m) ← unlimitedImage? sentinel value
    let (others, n) ← unlimitedMembers? sentinel rest
    return ((key, first.asValue) :: others, max m n)

end

/-- A document with every specification replaced by its clauses, however deep joins nest, and how
deep the joins of the deepest specification nest. -/
def unlimited? (sentinel : String) (document : Json) : Option (Json × Nat) :=
  (unlimitedImage? sentinel document).map fun (image, depth) => (image.asValue, depth)

variable {sentinel : String}

mutual

/-- What a value is rewritten to within the limit it is rewritten to without. -/
theorem exists_unlimitedImage?_of_image? : (value : Json) → ∀ {image : Image} {count : Nat},
    image? sentinel value = some (image, count) →
    ∃ depth ≤ maxJoinDepth, unlimitedImage? sentinel value = some (image, depth)
  | .array items, image, count, h => by
    rw [image?] at h
    obtain ⟨⟨items', m⟩, hitems, h⟩ := Option.bind_eq_some_iff.mp h
    cases h
    obtain ⟨depth, hle, hunlimited⟩ := exists_unlimitedItems?_of_itemsImage? items hitems
    exact ⟨depth, hle, by rw [unlimitedImage?, hunlimited]; rfl⟩
  | .object members, image, count, h => by
    rw [image?] at h
    obtain ⟨⟨members', m⟩, hmembers, h⟩ := Option.bind_eq_some_iff.mp h
    obtain ⟨depth, hle, hunlimited⟩ := exists_unlimitedMembers?_of_membersImage? members hmembers
    dsimp only at h
    cases hhosted : hosted? members' with
    | none =>
      rw [hhosted] at h
      cases h
      exact ⟨depth, hle, by simp [unlimitedImage?, hunlimited, hhosted]⟩
    | some found =>
      rw [hhosted] at h
      obtain ⟨clauses, hclauses, h⟩ := Option.bind_eq_some_iff.mp h
      cases h
      obtain ⟨own, hown, hclauses⟩ := Specification.exists_unlimitedClauses?_of_clauses? hclauses
      refine ⟨max own depth, Nat.max_le.mpr ⟨hown, hle⟩, ?_⟩
      simp [unlimitedImage?, hunlimited, hhosted, hclauses]
  | .null, image, count, h | .bool _, image, count, h | .number _, image, count, h
  | .string _, image, count, h => by
    cases h
    exact ⟨0, Nat.zero_le _, rfl⟩

/-- What elements are rewritten to within the limit they are rewritten to without. -/
theorem exists_unlimitedItems?_of_itemsImage? : (items : List Json) →
    ∀ {items' : List Json} {count : Nat}, itemsImage? sentinel items = some (items', count) →
    ∃ depth ≤ maxJoinDepth, unlimitedItems? sentinel items = some (items', depth)
  | [], items', count, h => by
    cases h
    exact ⟨0, Nat.zero_le _, rfl⟩
  | item :: rest, items', count, h => by
    rw [itemsImage?] at h
    obtain ⟨⟨first, m⟩, hfirst, h⟩ := Option.bind_eq_some_iff.mp h
    obtain ⟨⟨others, n⟩, hothers, h⟩ := Option.bind_eq_some_iff.mp h
    cases h
    obtain ⟨p, hp, hfirst⟩ := exists_unlimitedImage?_of_image? item hfirst
    obtain ⟨q, hq, hothers⟩ := exists_unlimitedItems?_of_itemsImage? rest hothers
    exact ⟨max p q, Nat.max_le.mpr ⟨hp, hq⟩, by simp [unlimitedItems?, hfirst, hothers]⟩

/-- What members are rewritten to within the limit they are rewritten to without. -/
theorem exists_unlimitedMembers?_of_membersImage? : (members : List (String × Json)) →
    ∀ {members' : List (String × Json)} {count : Nat},
    membersImage? sentinel members = some (members', count) →
    ∃ depth ≤ maxJoinDepth, unlimitedMembers? sentinel members = some (members', depth)
  | [], members', count, h => by
    cases h
    exact ⟨0, Nat.zero_le _, rfl⟩
  | (key, value) :: rest, members', count, h => by
    rw [membersImage?] at h
    obtain ⟨⟨first, m⟩, hfirst, h⟩ := Option.bind_eq_some_iff.mp h
    obtain ⟨⟨others, n⟩, hothers, h⟩ := Option.bind_eq_some_iff.mp h
    cases h
    obtain ⟨p, hp, hfirst⟩ := exists_unlimitedImage?_of_image? value hfirst
    obtain ⟨q, hq, hothers⟩ := exists_unlimitedMembers?_of_membersImage? rest hothers
    exact ⟨max p q, Nat.max_le.mpr ⟨hp, hq⟩, by simp [unlimitedMembers?, hfirst, hothers]⟩

end

mutual

/-- What a value is rewritten to without the limit it is rewritten to if all specifications are
within the limit. -/
theorem exists_image?_of_unlimitedImage? : (value : Json) → ∀ {image : Image} {depth : Nat},
    unlimitedImage? sentinel value = some (image, depth) → depth ≤ maxJoinDepth →
    ∃ count, image? sentinel value = some (image, count)
  | .array items, image, depth, h, hle => by
    rw [unlimitedImage?] at h
    obtain ⟨⟨items', m⟩, hitems, h⟩ := Option.bind_eq_some_iff.mp h
    cases h
    obtain ⟨count, hitems⟩ := exists_itemsImage?_of_unlimitedItems? items hitems hle
    exact ⟨count, by rw [image?, hitems]; rfl⟩
  | .object members, image, depth, h, hle => by
    rw [unlimitedImage?] at h
    obtain ⟨⟨members', m⟩, hmembers, h⟩ := Option.bind_eq_some_iff.mp h
    dsimp only at h
    cases hhosted : hosted? members' with
    | none =>
      rw [hhosted] at h
      cases h
      obtain ⟨count, hmembers⟩ := exists_membersImage?_of_unlimitedMembers? members hmembers hle
      exact ⟨count, by simp [image?, hmembers, hhosted]⟩
    | some found =>
      rw [hhosted] at h
      obtain ⟨⟨clauses, own⟩, hclauses, h⟩ := Option.bind_eq_some_iff.mp h
      cases h
      obtain ⟨hown, hle⟩ := Nat.max_le.mp hle
      obtain ⟨count, hmembers⟩ := exists_membersImage?_of_unlimitedMembers? members hmembers hle
      have hclauses := Specification.clauses?_of_unlimitedClauses? hclauses hown
      exact ⟨clauses.length + count, by simp [image?, hmembers, hhosted, hclauses]⟩
  | .null, image, depth, h, _ | .bool _, image, depth, h, _ | .number _, image, depth, h, _
  | .string _, image, depth, h, _ => by
    cases h
    exact ⟨0, rfl⟩

/-- What elements are rewritten to without the limit they are rewritten to within. -/
theorem exists_itemsImage?_of_unlimitedItems? : (items : List Json) →
    ∀ {items' : List Json} {depth : Nat}, unlimitedItems? sentinel items = some (items', depth) →
    depth ≤ maxJoinDepth → ∃ count, itemsImage? sentinel items = some (items', count)
  | [], items', depth, h, _ => by
    cases h
    exact ⟨0, rfl⟩
  | item :: rest, items', depth, h, hle => by
    rw [unlimitedItems?] at h
    obtain ⟨⟨first, p⟩, hfirst, h⟩ := Option.bind_eq_some_iff.mp h
    obtain ⟨⟨others, q⟩, hothers, h⟩ := Option.bind_eq_some_iff.mp h
    cases h
    obtain ⟨hp, hq⟩ := Nat.max_le.mp hle
    obtain ⟨m, hfirst⟩ := exists_image?_of_unlimitedImage? item hfirst hp
    obtain ⟨n, hothers⟩ := exists_itemsImage?_of_unlimitedItems? rest hothers hq
    exact ⟨m + n, by simp [itemsImage?, hfirst, hothers]⟩

/-- What members are rewritten to without the limit they are rewritten to within. -/
theorem exists_membersImage?_of_unlimitedMembers? : (members : List (String × Json)) →
    ∀ {members' : List (String × Json)} {depth : Nat},
    unlimitedMembers? sentinel members = some (members', depth) →
    depth ≤ maxJoinDepth → ∃ count, membersImage? sentinel members = some (members', count)
  | [], members', depth, h, _ => by
    cases h
    exact ⟨0, rfl⟩
  | (key, value) :: rest, members', depth, h, hle => by
    rw [unlimitedMembers?] at h
    obtain ⟨⟨first, p⟩, hfirst, h⟩ := Option.bind_eq_some_iff.mp h
    obtain ⟨⟨others, q⟩, hothers, h⟩ := Option.bind_eq_some_iff.mp h
    cases h
    obtain ⟨hp, hq⟩ := Nat.max_le.mp hle
    obtain ⟨m, hfirst⟩ := exists_image?_of_unlimitedImage? value hfirst hp
    obtain ⟨n, hothers⟩ := exists_membersImage?_of_unlimitedMembers? rest hothers hq
    exact ⟨m + n, by simp [membersImage?, hfirst, hothers]⟩

end

/-- Elements are rewritten without the limit one by one. -/
theorem isSome_unlimitedImage?_of_mem {items : List Json}
    (h : (unlimitedItems? sentinel items).isSome) :
    ∀ item ∈ items, (unlimitedImage? sentinel item).isSome := by
  induction items with
  | nil => exact List.forall_mem_nil _
  | cons item rest ih =>
    obtain ⟨_, h⟩ := Option.isSome_iff_exists.mp h
    rw [unlimitedItems?] at h
    obtain ⟨_, hfirst, h⟩ := Option.bind_eq_some_iff.mp h
    obtain ⟨_, hothers, -⟩ := Option.bind_eq_some_iff.mp h
    refine List.forall_mem_cons.mpr ⟨Option.isSome_of_eq_some hfirst, ?_⟩
    exact ih (Option.isSome_of_eq_some hothers)

/-- The value under a key is rewritten without the limit if all members are. -/
theorem isSome_unlimitedImage?_of_lookup {members : List (String × Json)}
    (h : (unlimitedMembers? sentinel members).isSome) {key : String} {value : Json}
    (hvalue : members.lookup key = some value) : (unlimitedImage? sentinel value).isSome := by
  induction members with
  | nil => cases hvalue
  | cons member rest ih =>
    obtain ⟨_, h⟩ := Option.isSome_iff_exists.mp h
    rw [unlimitedMembers?] at h
    obtain ⟨_, hfirst, h⟩ := Option.bind_eq_some_iff.mp h
    obtain ⟨_, hothers, -⟩ := Option.bind_eq_some_iff.mp h
    rw [List.lookup_cons] at hvalue
    split at hvalue
    · cases hvalue
      exact Option.isSome_of_eq_some hfirst
    · exact ih (Option.isSome_of_eq_some hothers) hvalue

/-- A part of a value that is rewritten without the limit is rewritten without the limit. -/
theorem isSome_unlimitedImage?_of_resolve? {place : Pointer} {value part : Json}
    (hpart : place.resolve? value = some part) (h : (unlimitedImage? sentinel value).isSome) :
    (unlimitedImage? sentinel part).isSome := by
  induction place generalizing value with
  | nil =>
    cases hpart
    exact h
  | cons segment rest ih =>
    obtain ⟨_, h⟩ := Option.isSome_iff_exists.mp h
    cases segment with
    | key name =>
      cases value with
      | object members =>
        obtain ⟨member, hmember, hpart⟩ := Option.bind_eq_some_iff.mp hpart
        rw [unlimitedImage?] at h
        obtain ⟨_, hmembers, -⟩ := Option.bind_eq_some_iff.mp h
        have hall := Option.isSome_of_eq_some hmembers
        exact ih hpart (isSome_unlimitedImage?_of_lookup hall hmember)
      | null | bool _ | number _ | string _ | array _ => cases hpart
    | index position =>
      cases value with
      | array items =>
        obtain ⟨item, hitem, hpart⟩ := Option.bind_eq_some_iff.mp hpart
        rw [unlimitedImage?] at h
        obtain ⟨_, hitems, -⟩ := Option.bind_eq_some_iff.mp h
        have hall := Option.isSome_of_eq_some hitems
        exact ih hpart (isSome_unlimitedImage?_of_mem hall item (List.mem_of_getElem? hitem))
      | null | bool _ | number _ | string _ | object _ => cases hpart

/-- The specification of a host that is rewritten without the limit has clauses once it has been
rewritten itself. -/
theorem exists_unlimitedClauses?_of_host {label : Label} {written : Json}
    (h : (unlimitedImage? sentinel (.object [(label.key, written)])).isSome) {image : Image}
    {depth : Nat} (hwritten : unlimitedImage? sentinel written = some (image, depth)) :
    ∃ clauses own,
      Specification.unlimitedClauses? sentinel label image.asValue = some (clauses, own) := by
  obtain ⟨_, h⟩ := Option.isSome_iff_exists.mp h
  rw [unlimitedImage?] at h
  obtain ⟨_, hmembers, h⟩ := Option.bind_eq_some_iff.mp h
  simp only [unlimitedMembers?, hwritten, Option.bind_eq_bind, Option.bind_some,
    Option.pure_def, Option.some.injEq] at hmembers
  rw [← hmembers] at h
  simp only [hosted?_eq_some_iff.mpr rfl] at h
  obtain ⟨⟨clauses, own⟩, hclauses, -⟩ := Option.bind_eq_some_iff.mp h
  exact ⟨clauses, own, hclauses⟩

end Json

namespace Document

variable {sentinel : String} {document : Json}

/-- An expansion that fails although the document is rewritten without the limit fails because joins
nest too deep. -/
theorem tooDeep_of_unlimited? (hordered : document.IsOrdered) (huncrowded : document.Uncrowded)
    (hunlimited : (document.unlimited? sentinel).isSome) {fault : Fault}
    (hfault : (expand sentinel document).outcome.result = .error fault) : fault.TooDeep := by
  obtain ⟨before, host, after, count, hall, hrun, hstays, hhost⟩ :=
    exists_run?_of_expand_eq_error hordered (locate_eq huncrowded) hfault
  obtain ⟨written, rewritten, n, hwritten, hrewrite, hstanding⟩ :=
    Host.exists_rewritten_at_turn hordered hall hrun
  have hkept := hstays host (List.mem_append_right _ List.mem_cons_self)
  have hcompile := hkept.compile_eq_error hhost
  rw [Host.readIn, hstanding] at hcompile
  -- The host is rewritten without the limit, and its specification to what stands there now.
  have hmem : host ∈ Host.allIn [] document := by simp [hall]
  obtain ⟨found, hplace⟩ := Host.keptIn_of_mem_allIn document hordered hmem
  have hfound := Host.resolve?_specificationPlace hplace
  rw [hwritten] at hfound
  cases hfound
  rw [unlimited?, Option.isSome_map] at hunlimited
  have hself := isSome_unlimitedImage?_of_resolve? hplace hunlimited
  obtain ⟨⟨image, m⟩, himage, heq⟩ := Option.map_eq_some_iff.mp hrewrite
  cases heq
  obtain ⟨depth, -, hinside⟩ := exists_unlimitedImage?_of_image? written himage
  obtain ⟨clauses, own, hclauses⟩ := exists_unlimitedClauses?_of_host hself hinside
  exact Specification.tooDeep_of_unlimitedClauses? hclauses hcompile

/-- A document that expands is rewritten to the same without the limit, and its deepest
specification is within the limit. -/
theorem exists_unlimited?_of_expand (hordered : document.IsOrdered) {report : Report}
    (hexpand : (expand sentinel document).outcome.result = .ok report) :
    ∃ depth ≤ maxJoinDepth, document.unlimited? sentinel =
      some ((expand sentinel document).document, depth) := by
  obtain ⟨count, hrewrite⟩ := rewrite?_of_expand sentinel hordered hexpand
  obtain ⟨⟨image, _⟩, himage, heq⟩ := Option.map_eq_some_iff.mp hrewrite
  obtain ⟨depth, hle, hunlimited⟩ := exists_unlimitedImage?_of_image? document himage
  refine ⟨depth, hle, Option.map_eq_some_iff.mpr ⟨_, hunlimited, ?_⟩⟩
  exact congrArg (·, depth) (Prod.mk.inj heq).1

variable {unlimited : Json} {depth : Nat}

/-- A document whose deepest specification is within the limit expands to what it is rewritten to
without the limit. -/
theorem expand_of_unlimited? (hordered : document.IsOrdered) (huncrowded : document.Uncrowded)
    (hunlimited : document.unlimited? sentinel = some (unlimited, depth))
    (hle : depth ≤ maxJoinDepth) :
    (∃ report, (expand sentinel document).outcome.result = .ok report) ∧
      (expand sentinel document).document = unlimited := by
  obtain ⟨⟨image, _⟩, himage, heq⟩ := Option.map_eq_some_iff.mp hunlimited
  cases heq
  obtain ⟨count, himage⟩ := exists_image?_of_unlimitedImage? document himage hle
  have hrewrite : document.rewrite? sentinel = some (image.asValue, count) :=
    Option.map_eq_some_iff.mpr ⟨_, himage, rfl⟩
  obtain ⟨hdocument, hreport⟩ := expand_of_rewrite? sentinel hordered huncrowded hrewrite
  exact ⟨⟨_, hreport⟩, hdocument⟩

/-- A document whose deepest specification is beyond the limit is refused as too deep. -/
theorem expand_tooDeep_of_unlimited? (hordered : document.IsOrdered)
    (huncrowded : document.Uncrowded)
    (hunlimited : document.unlimited? sentinel = some (unlimited, depth))
    (hlt : maxJoinDepth < depth) :
    ∃ place, (expand sentinel document).outcome.result = .error (.malformed .tooDeep place) := by
  cases hexpand : (expand sentinel document).outcome.result with
  | ok report =>
    obtain ⟨within, hle, hsame⟩ := exists_unlimited?_of_expand hordered hexpand
    rw [hunlimited] at hsame
    cases hsame
    exact absurd hlt (Nat.not_lt.mpr hle)
  | error fault =>
    have hsome := Option.isSome_of_eq_some hunlimited
    obtain ⟨place, rfl⟩ := tooDeep_of_unlimited? hordered huncrowded hsome hexpand
    exact ⟨place, rfl⟩

end Document

end Semijoin
