import Semijoin.Proofs.Document.Failure

/-!
# What a host finds at its turn

When the turn of a host comes, the hosts after it have been replaced, among them all that stand in
its specification. So it finds what rewriting its specification gives, at the place where the
specification was.
-/

namespace Semijoin

open Json

namespace Pointer

/-- Places that share their first segment are ordered by the others. -/
theorem Ahead.of_cons {segment : Segment} {p q : Pointer}
    (h : Ahead (segment :: p) (segment :: q)) : Ahead p q := by
  rcases h with ⟨inner, hinner, heq⟩ | happart
  · exact .inl ⟨inner, hinner, (List.cons.inj heq).2⟩
  · cases happart with
    | key hne => exact absurd rfl hne
    | index hlt => exact absurd hlt (Nat.lt_irrefl _)
    | inside _ h => exact .inr h

/-- No place in a value is ahead of the value. -/
theorem not_ahead_nil {segment : Segment} {p : Pointer} : ¬ Ahead (segment :: p) [] := by
  rintro (⟨inner, -, heq⟩ | happart)
  · cases heq
  · cases happart

/-- No place in an element is ahead of the element or of an earlier one. -/
theorem not_ahead_index {position earlier : Nat} (h : earlier ≤ position) {p : Pointer} :
    ¬ Ahead (.index position :: p) [.index earlier] := by
  rintro (⟨inner, hinner, heq⟩ | happart)
  · exact hinner (List.append_eq_nil_iff.mp (List.cons.inj heq).2.symm).2
  · cases happart with
    | index hlt => omega
    | inside _ h => cases h

/-- No place in a value is ahead of a place around it. -/
theorem not_ahead_append (p rest : Pointer) : ¬ Ahead (p ++ rest) p := by
  induction p with
  | nil =>
    cases rest with
    | nil => exact fun h => h.ne rfl
    | cons segment rest => exact not_ahead_nil
  | cons segment p ih => exact fun h => ih h.of_cons

end Pointer

namespace Json

variable {sentinel : String} {chosen : Pointer → Bool}

/-- A value whose own place is not chosen stays a value. -/
theorem asValue_of_imageWhere? (hroot : chosen Pointer.root = false) {value : Json} {image : Image}
    {count : Nat} (h : imageWhere? sentinel chosen value = some (image, count)) :
    image = .value image.asValue := by
  cases value with
  | array items =>
    rw [imageWhere?] at h
    obtain ⟨_, -, h⟩ := Option.bind_eq_some_iff.mp h
    cases h
    rfl
  | object members =>
    rw [imageWhere?] at h
    obtain ⟨_, -, h⟩ := Option.bind_eq_some_iff.mp h
    simp only [hroot, Bool.false_eq_true, if_false] at h
    cases h
    rfl
  | null | bool _ | number _ | string _ =>
    cases h
    rfl

/-- Rewriting the members of an object at chosen places rewrites each under its key. -/
theorem lookup_membersImageWhere? {members members' : List (String × Json)} {count : Nat}
    (h : membersImageWhere? sentinel chosen members = some (members', count)) {key : String}
    {value : Json} (hvalue : members.lookup key = some value) :
    ∃ image n, imageWhere? sentinel (fun place => chosen (.key key :: place)) value =
        some (image, n) ∧ members'.lookup key = some image.asValue := by
  induction members generalizing members' count with
  | nil => cases hvalue
  | cons member rest ih =>
    obtain ⟨name, first⟩ := member
    rw [membersImageWhere?] at h
    obtain ⟨⟨image, m⟩, himage, h⟩ := Option.bind_eq_some_iff.mp h
    obtain ⟨⟨others, n⟩, hothers, h⟩ := Option.bind_eq_some_iff.mp h
    cases h
    rw [List.lookup_cons] at hvalue ⊢
    by_cases hname : key = name
    · subst hname
      rw [beq_self_eq_true] at hvalue ⊢
      cases hvalue
      exact ⟨image, m, himage, rfl⟩
    · rw [beq_false_of_ne hname] at hvalue ⊢
      exact ih hothers hvalue

/-- An object whose own place is not chosen keeps its members, each rewritten at the chosen places
in it. -/
theorem resolve?_key_imageWhere? (hroot : chosen Pointer.root = false)
    {members : List (String × Json)} {image : Image} {count : Nat}
    (himage : imageWhere? sentinel chosen (.object members) = some (image, count)) {key : String}
    {value : Json} (hvalue : members.lookup key = some value) :
    ∃ first n, imageWhere? sentinel (fun place => chosen (.key key :: place)) value =
        some (first, n) ∧ Pointer.resolve? [.key key] image.asValue = some first.asValue := by
  rw [imageWhere?] at himage
  obtain ⟨⟨members', m⟩, hmembers, himage⟩ := Option.bind_eq_some_iff.mp himage
  simp only [hroot, Bool.false_eq_true, if_false] at himage
  cases himage
  obtain ⟨first, n, hfirst, hlookup⟩ := lookup_membersImageWhere? hmembers hvalue
  exact ⟨first, n, hfirst, Option.bind_eq_some_iff.mpr ⟨_, hlookup, rfl⟩⟩

/-- Rewriting the elements of an array at chosen places leaves those at their positions that no
chosen element comes before. -/
theorem getElem?_itemsImageWhere? {items items' : List Json} {position count : Nat}
    (h : itemsImageWhere? sentinel chosen position items = some (items', count)) {offset : Nat}
    {item : Json} (hitem : items[offset]? = some item)
    (hunchosen : ∀ earlier ≤ offset, chosen [.index (position + earlier)] = false) :
    ∃ image n, imageWhere? sentinel (fun place => chosen (.index (position + offset) :: place))
        item = some (image, n) ∧ items'[offset]? = some image.asValue := by
  induction items generalizing position items' count offset with
  | nil => cases hitem
  | cons first rest ih =>
    rw [itemsImageWhere?] at h
    obtain ⟨⟨image, m⟩, himage, h⟩ := Option.bind_eq_some_iff.mp h
    obtain ⟨⟨others, n⟩, hothers, h⟩ := Option.bind_eq_some_iff.mp h
    cases h
    have hfirst := asValue_of_imageWhere? (hunchosen 0 (Nat.zero_le _)) himage
    have hitems : image.asItems = [image.asValue] := by rw [hfirst]; rfl
    rw [hitems]
    cases offset with
    | zero =>
      cases hitem
      exact ⟨image, m, himage, rfl⟩
    | succ offset =>
      have hshift (earlier : Nat) : position + 1 + earlier = position + (earlier + 1) := by omega
      obtain ⟨found, k, hfound, hget⟩ := ih hothers hitem fun earlier hearlier => by
        rw [hshift]
        exact hunchosen (earlier + 1) (Nat.succ_le_succ hearlier)
      rw [hshift] at hfound
      exact ⟨found, k, hfound, hget⟩

/-- A place that is ahead of all chosen ones stays, and what is there is rewritten at the chosen
places in it. -/
theorem resolve?_imageWhere? {place : Pointer} {value found : Json} {image : Image} {count : Nat}
    (himage : imageWhere? sentinel chosen value = some (image, count))
    (hfound : place.resolve? value = some found)
    (hahead : ∀ other, chosen other = true → place.Ahead other) :
    ∃ image' n, imageWhere? sentinel (fun inner => chosen (place ++ inner)) found =
        some (image', n) ∧ place.resolve? image.asValue = some image'.asValue := by
  induction place generalizing chosen value image count with
  | nil =>
    cases hfound
    exact ⟨image, count, himage, rfl⟩
  | cons segment rest ih =>
    have hunchosen (other : Pointer) (h : ¬ Pointer.Ahead (segment :: rest) other) :
        chosen other = false := Bool.eq_false_iff.mpr fun hchosen => h (hahead other hchosen)
    have hinside (other : Pointer) (h : chosen (segment :: other) = true) :
        Pointer.Ahead rest other := (hahead _ h).of_cons
    cases segment with
    | key name =>
      cases value with
      | object members =>
        obtain ⟨member, hmember, hfound⟩ := Option.bind_eq_some_iff.mp hfound
        obtain ⟨first, n, hfirst, hkey⟩ := resolve?_key_imageWhere?
          (hunchosen Pointer.root Pointer.not_ahead_nil) himage hmember
        obtain ⟨image', n', himage', hresolve⟩ := ih hfirst hfound hinside
        refine ⟨image', n', himage', ?_⟩
        rw [← List.singleton_append, Pointer.resolve?_append, hkey]
        exact hresolve
      | null | bool _ | number _ | string _ | array _ => cases hfound
    | index position =>
      cases value with
      | array items =>
        obtain ⟨item, hitem, hfound⟩ := Option.bind_eq_some_iff.mp hfound
        rw [imageWhere?] at himage
        obtain ⟨⟨items', m⟩, hitems, himage⟩ := Option.bind_eq_some_iff.mp himage
        cases himage
        obtain ⟨first, n, hfirst, hget⟩ := getElem?_itemsImageWhere? hitems hitem
          fun earlier hearlier => hunchosen _ (by
            rw [Nat.zero_add]
            exact Pointer.not_ahead_index hearlier)
        rw [Nat.zero_add] at hfirst
        obtain ⟨image', n', himage', hresolve⟩ := ih hfirst hfound hinside
        exact ⟨image', n', himage', Option.bind_eq_some_iff.mpr ⟨_, hget, hresolve⟩⟩
      | null | bool _ | number _ | string _ | object _ => cases hfound

/-- A part of an ordered value is ordered. -/
theorem IsOrdered.resolve? {value part : Json} (h : value.IsOrdered) {place : Pointer}
    (hpart : place.resolve? value = some part) : part.IsOrdered := by
  induction place generalizing value with
  | nil =>
    cases hpart
    exact h
  | cons segment rest ih =>
    cases segment with
    | key name =>
      cases value with
      | object members =>
        obtain ⟨member, hmember, hrest⟩ := Option.bind_eq_some_iff.mp hpart
        obtain ⟨before, after, rfl, -⟩ := List.lookup_eq_some_iff.mp hmember
        exact ih (membersOrdered_iff.mp h.2 (name, member) (by simp)) hrest
      | null | bool _ | number _ | string _ | array _ => cases hpart
    | index position =>
      cases value with
      | array items =>
        obtain ⟨item, hitem, hrest⟩ := Option.bind_eq_some_iff.mp hpart
        exact ih (itemsOrdered_iff.mp h item (List.mem_of_getElem? hitem)) hrest
      | null | bool _ | number _ | string _ | object _ => cases hpart

end Json

namespace Host

variable {sentinel : String} {document : Json} {before after : List Host} {host : Host}

/-- Where a host in the specification of another one stands. -/
theorem place_under_specificationPlace (inner host : Host) :
    (inner.under host.specificationPlace).place =
      host.place ++ .key host.label.key :: inner.place := by
  rw [under, specificationPlace, Pointer.key, List.append_assoc]
  rfl

/-- Every host in the specification of a host comes after it. -/
theorem mem_after_of_inside (hordered : document.IsOrdered)
    (hall : allIn [] document = before ++ host :: after) {written : Json}
    (hwritten : host.specificationPlace.resolve? document = some written) {inner : Host}
    (hinner : inner ∈ allIn [] written) : inner.under host.specificationPlace ∈ after := by
  have hmem := under_mem_allIn hwritten hinner
  have hahead := pairwise_allIn document hordered
  have hplace := place_under_specificationPlace inner host
  rw [hall] at hmem hahead
  rcases List.mem_append.mp hmem with hbefore | hmem
  · have h := (List.pairwise_append.mp hahead).2.2 _ hbefore host List.mem_cons_self
    rw [hplace] at h
    exact absurd h (Pointer.not_ahead_append _ _)
  · rcases List.mem_cons.mp hmem with heq | hafter
    · rw [heq] at hplace
      have hlength := congrArg List.length hplace
      simp at hlength
    · exact hafter

/-- **What a host finds at its turn.** When the hosts after a host have been replaced, its
specification is the rewritten one. -/
theorem exists_rewritten_at_turn (hordered : document.IsOrdered)
    (hall : allIn [] document = before ++ host :: after) {standing : Json} {count : Nat}
    (hrun : run? sentinel after.reverse document = some (count, standing)) :
    ∃ written rewritten n, host.specificationPlace.resolve? document = some written ∧
      written.rewrite? sentinel = some (rewritten, n) ∧
      host.specificationPlace.resolve? standing = some rewritten := by
  have hmem : host ∈ allIn [] document := by simp [hall]
  obtain ⟨written, hhost⟩ := keptIn_of_mem_allIn document hordered hmem
  have hahead := pairwise_allIn document hordered
  rw [hall] at hahead
  have hlater := (List.pairwise_cons.mp (List.pairwise_append.mp hahead).2.1).1
  have hsplit : allIn [] document = (before ++ [host]) ++ after := hall.trans (by simp)
  have hstanding := rewriteWhere?_of_run? hordered hsplit hrun
  obtain ⟨⟨image, _⟩, himage, heq⟩ := Option.map_eq_some_iff.mp hstanding
  cases heq
  -- The host itself stays, and its specification is rewritten at the places of the later hosts.
  obtain ⟨hostImage, _, hhostImage, hplace⟩ := resolve?_imageWhere? himage hhost
    fun other hother => by
      obtain ⟨later, hmem, rfl⟩ := List.mem_map.mp (of_decide_eq_true hother)
      exact hlater later hmem
  have hself : host.place ++ Pointer.root ∉ after.map Host.place := by
    intro hchosen
    obtain ⟨later, hmem, heq⟩ := List.mem_map.mp hchosen
    exact (hlater later hmem).ne (by rw [heq]; exact (List.append_nil _).symm)
  obtain ⟨first, n, hfirst, hkey⟩ :=
    resolve?_key_imageWhere? (decide_eq_false hself) hhostImage List.lookup_cons_self
  have hwritten := resolve?_specificationPlace hhost
  have hrewritten : host.specificationPlace.resolve? image.asValue = some first.asValue := by
    rw [specificationPlace, Pointer.key, Pointer.resolve?_append, hplace]
    exact hkey
  -- These are all hosts in the specification, so it is rewritten as a whole.
  have hamong : among (fun place => decide (host.place ++ .key host.label.key :: place ∈
      after.map Host.place)) (allIn [] written) = allIn [] written := by
    refine List.filter_eq_self.mpr fun inner hinner => decide_eq_true ?_
    rw [← place_under_specificationPlace]
    exact List.mem_map_of_mem (mem_after_of_inside hordered hall hwritten hinner)
  have hwhole := run?_among sentinel (hordered.resolve? hwritten) fun place =>
    decide (host.place ++ .key host.label.key :: place ∈ after.map Host.place)
  rw [hamong, Document.run?_allIn sentinel (hordered.resolve? hwritten), rewriteWhere?, hfirst]
    at hwhole
  obtain ⟨⟨rewritten, m⟩, hrewrite, heq⟩ := Option.map_eq_some_iff.mp hwhole
  cases heq
  exact ⟨written, _, _, hwritten, hrewrite, hrewritten⟩

end Host

end Semijoin
