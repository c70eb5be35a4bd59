import Mathlib.Data.List.Forall2
import Semijoin.Proofs.Document.Rewriting

/-!
# Values before their rewriting

The shape of a rewritten value tells the shape of the value before, as long as this is no host. A
scalar was the same scalar, an object was an object with the same keys, and an array was an array.
Its elements were as many if none of them was a host, for only hosts are spliced.
-/

namespace Semijoin.Json

/-- The value is an object whose only key is a label. -/
def IsHost (value : Json) : Prop :=
  ∃ (label : Label) (specification : Json), value = .object [(label.key, specification)]

/-- The elements of an array; every other value has none. -/
def items : Json → List Json
  | .array items => items
  | _ => []

/-- A value becomes another one when every specification in it is replaced by its clauses. -/
def RewritesTo (sentinel : String) (value rewritten : Json) : Prop :=
  ∃ count, value.rewrite? sentinel = some (rewritten, count)

/-- A value that is no array and no object. -/
def IsScalar (value : Json) : Prop :=
  (∀ items, value ≠ .array items) ∧ ∀ members, value ≠ .object members

variable {sentinel : String}

/-- What is found under a key is a member with this key. -/
theorem mem_of_lookup {members : List (String × Json)} {key : String} {value : Json}
    (h : members.lookup key = some value) : (key, value) ∈ members := by
  obtain ⟨before, after, rfl, -⟩ := List.lookup_eq_some_iff.mp h
  exact List.mem_append_right _ List.mem_cons_self

/-- An object is no host if it has a key that is not a label. -/
theorem not_isHost_of_lookup {members : List (String × Json)} {key : String} {value : Json}
    (hvalue : members.lookup key = some value) (hkey : ∀ label : Label, key ≠ label.key) :
    ¬ (Json.object members).IsHost := by
  rintro ⟨label, specification, heq⟩
  cases heq
  rw [List.lookup_cons, beq_false_of_ne (hkey label)] at hvalue
  cases hvalue

/-- Arrays are no hosts. -/
theorem not_isHost_array (items : List Json) : ¬ (Json.array items).IsHost := by
  rintro ⟨_, _, heq⟩
  cases heq

/-- What a value may become: a scalar stays, arrays and objects have their parts rewritten, and only
a host becomes clauses. -/
inductive Becomes (sentinel : String) : Json → Image → Prop
  | scalar {value : Json} (hscalar : value.IsScalar) : Becomes sentinel value (.value value)
  | array {items items' : List Json} {count : Nat}
    (hitems : itemsImage? sentinel items = some (items', count)) :
    Becomes sentinel (.array items) (.value (.array items'))
  | object {members members' : List (String × Json)} {count : Nat}
    (hhost : ¬ (Json.object members).IsHost)
    (hmembers : membersImage? sentinel members = some (members', count)) :
    Becomes sentinel (.object members) (.value (.object members'))
  | host {value : Json} {clauses : List Json} (hhost : value.IsHost) :
    Becomes sentinel value (.clauses clauses)

/-- A value becomes its image. -/
theorem becomes_of_image? {value : Json} {image : Image} {count : Nat}
    (h : image? sentinel value = some (image, count)) : Becomes sentinel value image := by
  cases value with
  | array items =>
    rw [image?] at h
    obtain ⟨⟨items', n⟩, hitems, h⟩ := Option.bind_eq_some_iff.mp h
    cases h
    exact .array hitems
  | object members =>
    rw [image?] at h
    obtain ⟨⟨members', n⟩, hmembers, h⟩ := Option.bind_eq_some_iff.mp h
    dsimp only at h
    have hkeys := keys_membersImage? hmembers
    cases hhosted : hosted? members' with
    | none =>
      rw [hhosted] at h
      cases h
      refine .object ?_ hmembers
      rintro ⟨label, written, heq⟩
      cases heq
      obtain ⟨⟨key, rewritten⟩, hsingle, hkey⟩ := List.map_eq_singleton_iff.mp hkeys
      dsimp only at hkey
      rw [hsingle, hkey, hosted?_eq_some_iff.mpr rfl] at hhosted
      cases hhosted
    | some found =>
      obtain ⟨label, specification⟩ := found
      rw [hhosted] at h
      obtain ⟨clauses, -, h⟩ := Option.bind_eq_some_iff.mp h
      cases h
      rw [hosted?_eq_some_iff.mp hhosted] at hkeys
      obtain ⟨⟨key, written⟩, rfl, hkey⟩ := List.map_eq_singleton_iff.mp hkeys.symm
      dsimp only at hkey
      exact .host ⟨label, written, by rw [hkey]⟩
  | null | bool _ | number _ | string _ =>
    cases h
    exact .scalar ⟨nofun, nofun⟩

/-- A value becomes what it is rewritten to. -/
theorem RewritesTo.exists_becomes {value rewritten : Json}
    (h : RewritesTo sentinel value rewritten) :
    ∃ image : Image, image.asValue = rewritten ∧ Becomes sentinel value image := by
  obtain ⟨_, h⟩ := h
  obtain ⟨⟨image, count⟩, himage, heq⟩ := Option.map_eq_some_iff.mp h
  exact ⟨image, (Prod.mk.inj heq).1, becomes_of_image? himage⟩

/-- A value that is rewritten to a scalar is this scalar. -/
theorem RewritesTo.eq_of_isScalar {value rewritten : Json} (h : RewritesTo sentinel value rewritten)
    (hscalar : rewritten.IsScalar) : value = rewritten := by
  obtain ⟨image, rfl, hbecomes⟩ := h.exists_becomes
  cases hbecomes with
  | scalar _ => rfl
  | array _ => exact absurd rfl (hscalar.1 _)
  | object _ _ => exact absurd rfl (hscalar.2 _)
  | host _ => exact absurd rfl (hscalar.1 _)

/-- A value that is rewritten to an object is an object, and its members become the members of this
one. -/
theorem RewritesTo.exists_members {value : Json} {members' : List (String × Json)}
    (h : RewritesTo sentinel value (.object members')) :
    ∃ members count, value = .object members ∧
      membersImage? sentinel members = some (members', count) := by
  obtain ⟨image, himage, hbecomes⟩ := h.exists_becomes
  cases hbecomes with
  | scalar hscalar => exact absurd himage (hscalar.2 _)
  | array _ => cases himage
  | object _ hmembers =>
    cases himage
    exact ⟨_, _, rfl, hmembers⟩
  | host _ => cases himage

/-- A value that is no host and is rewritten to an array is an array, and its elements become the
elements of this one. -/
theorem RewritesTo.exists_items {value : Json} {items' : List Json}
    (h : RewritesTo sentinel value (.array items')) (hhost : ¬ value.IsHost) :
    ∃ items count, value = .array items ∧ itemsImage? sentinel items = some (items', count) := by
  obtain ⟨image, himage, hbecomes⟩ := h.exists_becomes
  cases hbecomes with
  | scalar hscalar => exact absurd himage (hscalar.1 _)
  | array hitems =>
    cases himage
    exact ⟨_, _, rfl, hitems⟩
  | object _ _ => cases himage
  | host h => exact absurd h hhost

/-- An element that is no host puts one element into an array, which it is rewritten to. -/
theorem rewritesTo_of_image? {value : Json} (hhost : ¬ value.IsHost) {image : Image} {count : Nat}
    (h : image? sentinel value = some (image, count)) :
    image.asItems = [image.asValue] ∧ RewritesTo sentinel value image.asValue := by
  refine ⟨?_, count, Option.map_eq_some_iff.mpr ⟨_, h, rfl⟩⟩
  cases becomes_of_image? h with
  | scalar _ => rfl
  | array _ => rfl
  | object _ _ => rfl
  | host hself => exact absurd hself hhost

/-- Elements of which none is a host become as many elements, one by one. -/
theorem forall₂_of_itemsImage? {items items' : List Json} {count : Nat}
    (h : itemsImage? sentinel items = some (items', count))
    (hhost : ∀ item ∈ items, ¬ item.IsHost) :
    List.Forall₂ (RewritesTo sentinel) items items' := by
  induction items generalizing items' count with
  | nil =>
    cases h
    exact .nil
  | cons item rest ih =>
    rw [itemsImage?] at h
    obtain ⟨⟨image, m⟩, himage, h⟩ := Option.bind_eq_some_iff.mp h
    obtain ⟨⟨others, n⟩, hothers, h⟩ := Option.bind_eq_some_iff.mp h
    cases h
    obtain ⟨hitem, hrest⟩ := List.forall_mem_cons.mp hhost
    obtain ⟨hitems, hrewrites⟩ := rewritesTo_of_image? hitem himage
    rw [hitems]
    exact .cons hrewrites (ih hothers hrest)

/-- Elements that become objects are objects, hosts among them. -/
theorem isObject_of_itemsImage? {items items' : List Json} {count : Nat}
    (h : itemsImage? sentinel items = some (items', count))
    (hobjects : ∀ item ∈ items', ∃ members, item = .object members) :
    ∀ item ∈ items, ∃ members, item = .object members := by
  induction items generalizing items' count with
  | nil => exact List.forall_mem_nil _
  | cons item rest ih =>
    rw [itemsImage?] at h
    obtain ⟨⟨image, m⟩, himage, h⟩ := Option.bind_eq_some_iff.mp h
    obtain ⟨⟨others, n⟩, hothers, h⟩ := Option.bind_eq_some_iff.mp h
    cases h
    obtain ⟨hfirst, hrest⟩ := List.forall_mem_append.mp hobjects
    refine List.forall_mem_cons.mpr ⟨?_, ih hothers hrest⟩
    by_cases hhost : item.IsHost
    · obtain ⟨label, specification, heq⟩ := hhost
      exact ⟨_, heq⟩
    · obtain ⟨hitems, hrewrites⟩ := rewritesTo_of_image? hhost himage
      rw [hitems] at hfirst
      obtain ⟨members, hobject⟩ := hfirst image.asValue List.mem_cons_self
      rw [hobject] at hrewrites
      obtain ⟨members, _, heq, -⟩ := hrewrites.exists_members
      exact ⟨members, heq⟩

/-- The value under a key becomes the value under this key, and no key is new. -/
theorem lookup_membersImage? {members members' : List (String × Json)} {count : Nat}
    (h : membersImage? sentinel members = some (members', count)) (key : String) :
    members.lookup key = none ∧ members'.lookup key = none ∨
      ∃ value rewritten, members.lookup key = some value ∧ members'.lookup key = some rewritten ∧
        RewritesTo sentinel value rewritten := by
  induction members generalizing members' count with
  | nil =>
    cases h
    exact .inl ⟨rfl, rfl⟩
  | cons member rest ih =>
    obtain ⟨name, value⟩ := member
    rw [membersImage?] at h
    obtain ⟨⟨image, m⟩, himage, h⟩ := Option.bind_eq_some_iff.mp h
    obtain ⟨⟨others, n⟩, hothers, h⟩ := Option.bind_eq_some_iff.mp h
    cases h
    rw [List.lookup_cons, List.lookup_cons]
    by_cases hname : key = name
    · rw [beq_iff_eq.mpr hname]
      exact .inr ⟨value, image.asValue, rfl, rfl, m, Option.map_eq_some_iff.mpr ⟨_, himage, rfl⟩⟩
    · rw [beq_false_of_ne hname]
      exact ih hothers

/-- Members become the members with their keys, one by one. -/
theorem forall₂_of_membersImage? {members members' : List (String × Json)} {count : Nat}
    (h : membersImage? sentinel members = some (members', count)) :
    List.Forall₂ (fun member member' => member.1 = member'.1 ∧
      RewritesTo sentinel member.2 member'.2) members members' := by
  induction members generalizing members' count with
  | nil =>
    cases h
    exact .nil
  | cons member rest ih =>
    obtain ⟨name, value⟩ := member
    rw [membersImage?] at h
    obtain ⟨⟨image, m⟩, himage, h⟩ := Option.bind_eq_some_iff.mp h
    obtain ⟨⟨others, n⟩, hothers, h⟩ := Option.bind_eq_some_iff.mp h
    cases h
    exact .cons ⟨rfl, m, Option.map_eq_some_iff.mpr ⟨_, himage, rfl⟩⟩ (ih hothers)

end Semijoin.Json
