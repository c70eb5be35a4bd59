import Semijoin.Proofs.Document.Selection

/-!
# Replacing hosts from the last to the first

A value stands in a slot: it is the whole document, an element of an array or a member of an
object. Replacing a host inside the value leaves the rest of the slot alone, and replacing the
value itself moves only what comes after it. So the places of the hosts before it stay valid,
and the replacement of some hosts, from the last to the first, rewrites a document from the inside
out at the places of these hosts.
-/

namespace Semijoin

open Json

/-- Where a value stands in the next larger one. -/
inductive Slot where
  | root
  | item (before after : List Json)
  | member (before : List (String × Json)) (key : String) (after : List (String × Json))

namespace Slot

/-- The pointer to the value. -/
def base : Slot → Pointer
  | .root => []
  | .item before _ => [.index before.length]
  | .member _ key _ => [.key key]

/-- The larger value with a value in the slot. -/
def put : Slot → Json → Json
  | .root, value => value
  | .item before after, value => .array (before ++ value :: after)
  | .member before key after, value => .object (before ++ (key, value) :: after)

/-- The larger value with an image in the slot. -/
def fill : Slot → Image → Json
  | .root, image => image.asValue
  | .item before after, image => .array (before ++ image.asItems ++ after)
  | .member before key after, image => .object (before ++ (key, image.asValue) :: after)

/-- No earlier member has the key of the slot. -/
def Sound : Slot → Prop
  | .root | .item _ _ => True
  | .member before key _ => ∀ member ∈ before, member.1 ≠ key

/-- A value takes a slot as it is. -/
@[simp] theorem fill_value (slot : Slot) (value : Json) :
    slot.fill (.value value) = slot.put value := by
  cases slot <;> simp [fill, put, Image.asValue, Image.asItems]

end Slot

/-- A key is found behind members with other keys. -/
theorem Json.lookup_append_cons {before : List (String × Json)} {key : String}
    (h : ∀ member ∈ before, member.1 ≠ key) (value : Json) (after : List (String × Json)) :
    (before ++ (key, value) :: after).lookup key = some value := by
  induction before with
  | nil => simp
  | cons first rest ih =>
    have hne : key ≠ first.1 := (h first List.mem_cons_self).symm
    rw [List.cons_append, List.lookup_cons, beq_false_of_ne hne]
    exact ih fun member hmember => h member (List.mem_cons_of_mem _ hmember)

/-- A member behind members with other keys is the one that is changed. -/
theorem Json.setMember_append_cons {before : List (String × Json)} {key : String}
    (h : ∀ member ∈ before, member.1 ≠ key) (value old : Json) (after : List (String × Json)) :
    setMember key value (before ++ (key, old) :: after) = before ++ (key, value) :: after := by
  induction before with
  | nil => simp [setMember]
  | cons first rest ih =>
    have hne : key ≠ first.1 := (h first List.mem_cons_self).symm
    rw [List.cons_append, setMember, if_neg hne,
      ih fun member hmember => h member (List.mem_cons_of_mem _ hmember), List.cons_append]

namespace Slot

/-- A pointer on from the slot leads on from the value in it. -/
theorem resolve?_base (slot : Slot) (hsound : slot.Sound) (rest : Pointer) (value : Json) :
    Pointer.resolve? (slot.base ++ rest) (slot.put value) = Pointer.resolve? rest value := by
  cases slot with
  | root => rfl
  | item before after => simp [base, put, Pointer.resolve?]
  | member before key after =>
    simp [base, put, Pointer.resolve?, lookup_append_cons hsound]

/-- Clauses that go to a place inside the value leave the rest of the slot alone. -/
theorem fill?_base (slot : Slot) (hsound : slot.Sound) (clauses : List Json) {rest : Pointer}
    (hrest : rest ≠ []) (value : Json) :
    Pointer.fill? clauses (slot.base ++ rest) (slot.put value) =
      (Pointer.fill? clauses rest value).map slot.put := by
  obtain ⟨segment, others, rfl⟩ := List.exists_cons_of_ne_nil hrest
  cases slot with
  | root =>
    change Pointer.fill? clauses (segment :: others) value = _
    cases Pointer.fill? clauses (segment :: others) value <;> rfl
  | item before after =>
    simp only [base, put, List.cons_append, List.nil_append, Pointer.fill?]
    cases hfill : Pointer.fill? clauses (segment :: others) value <;> simp [hfill, put]
  | member before key after =>
    simp only [base, put, List.cons_append, List.nil_append, Pointer.fill?,
      lookup_append_cons hsound]
    cases hfill : Pointer.fill? clauses (segment :: others) value <;>
      simp [hfill, put, setMember_append_cons hsound]

/-- Clauses that take the place of the value fill the slot. -/
theorem fill?_self (slot : Slot) (hsound : slot.Sound) (clauses : List Json) (value : Json) :
    Pointer.fill? clauses slot.base (slot.put value) = some (slot.fill (.clauses clauses)) := by
  cases slot with
  | root => rfl
  | item before after =>
    simp [base, put, fill, Image.asItems, Pointer.fill?]
  | member before key after =>
    simp [base, put, fill, Image.asValue, Pointer.fill?, lookup_append_cons hsound,
      setMember_append_cons hsound]

end Slot

namespace Host

variable (sentinel : String)

/-- Clauses can take the place of a host that is there and holds its label alone. -/
theorem toOption_splice (host : Host) (clauses : List Json) (document : Json) :
    (host.splice clauses document).toOption =
      (host.place.resolve? document).bind fun value =>
        if holds host.label value then host.place.fill? clauses document else none := by
  unfold splice
  cases host.place.resolve? document with
  | none => rfl
  | some value =>
    simp only [Option.bind_some]
    split
    · cases host.place.fill? clauses document <;> rfl
    · rfl

/-- A host strictly inside a value is replaced there, and the rest of the slot stays. -/
theorem step?_under (slot : Slot) (hsound : slot.Sound) {host : Host} (hplace : host.place ≠ [])
    (value : Json) :
    (host.under slot.base).step? sentinel (slot.put value) =
      (host.step? sentinel value).map fun (count, value) => (count, slot.put value) := by
  have hspecification : (host.under slot.base).specificationPlace =
      slot.base ++ host.specificationPlace := List.append_assoc _ _ _
  have hplace' : (host.under slot.base).place = slot.base ++ host.place := rfl
  have hlabel : (host.under slot.base).label = host.label := rfl
  rw [step?_eq, step?_eq]
  simp only [toOption_splice, hspecification, hplace', hlabel, slot.resolve?_base hsound,
    slot.fill?_base hsound _ hplace]
  cases host.specificationPlace.resolve? value with
  | none => rfl
  | some specification =>
    simp only [Option.bind_eq_bind, Option.bind_some]
    cases Specification.clauses? sentinel host.label specification with
    | none => rfl
    | some clauses =>
      cases host.place.resolve? value with
      | none => rfl
      | some found =>
        simp only [Option.bind_some]
        split
        · cases host.place.fill? clauses value <;> rfl
        · rfl

/-- Hosts strictly inside a value are replaced there, and the rest of the slot stays. -/
theorem run?_under (slot : Slot) (hsound : slot.Sound) {hosts : List Host}
    (hplaces : ∀ host ∈ hosts, host.place ≠ []) (value : Json) :
    run? sentinel (hosts.map (under slot.base)) (slot.put value) =
      (run? sentinel hosts value).map fun (count, value) => (count, slot.put value) := by
  induction hosts generalizing value with
  | nil => rfl
  | cons host rest ih =>
    simp only [List.map_cons, run?]
    rw [step?_under sentinel slot hsound (hplaces host List.mem_cons_self)]
    cases host.step? sentinel value with
    | none => rfl
    | some stepped =>
      have hrest := ih (fun host hhost => hplaces host (List.mem_cons_of_mem _ hhost)) stepped.2
      simp only [Option.map_some, Option.bind_eq_bind, Option.bind_some, hrest]
      cases run? sentinel rest stepped.2 <;> rfl

/-- A host is replaced in its slot by the clauses of its specification. -/
theorem step?_self (slot : Slot) (hsound : slot.Sound) (label : Label) (specification : Json) :
    Host.step? sentinel ⟨label, slot.base⟩ (slot.put (.object [(label.key, specification)])) =
      (Specification.clauses? sentinel label specification).map fun clauses =>
        (clauses.length, slot.fill (.clauses clauses)) := by
  have hself : Pointer.resolve? slot.base (slot.put (.object [(label.key, specification)])) =
      some (.object [(label.key, specification)]) := by
    rw [← List.append_nil slot.base, slot.resolve?_base hsound]
    rfl
  rw [step?_eq]
  simp only [toOption_splice, specificationPlace, Pointer.key, slot.resolve?_base hsound, hself,
    slot.fill?_self hsound]
  simp only [Pointer.resolve?, List.lookup_cons_self, Option.bind_eq_bind, Option.bind_some, holds]
  cases Specification.clauses? sentinel label specification <;> simp

/-- The hosts at chosen places. -/
def among (chosen : Pointer → Bool) (hosts : List Host) : List Host :=
  hosts.filter fun host => chosen host.place

/-- The hosts at chosen places of two lists. -/
theorem among_append (chosen : Pointer → Bool) (first second : List Host) :
    among chosen (first ++ second) = among chosen first ++ among chosen second :=
  List.filter_append first second

/-- The hosts at chosen places are the same from further outside. -/
theorem among_map_under (chosen : Pointer → Bool) (base : Pointer) (hosts : List Host) :
    among chosen (hosts.map (under base)) =
      (among (fun place => chosen (base ++ place)) hosts).map (under base) :=
  List.filter_map

/-- Where all places are chosen, all hosts are at chosen places. -/
theorem among_all (hosts : List Host) : among (fun _ => true) hosts = hosts :=
  List.filter_eq_self.mpr fun _ _ => rfl

/-- A host at a chosen place is one of the hosts. -/
theorem mem_of_mem_among {chosen : Pointer → Bool} {hosts : List Host} {host : Host}
    (h : host ∈ among chosen hosts) : host ∈ hosts :=
  (List.mem_filter.mp h).1

/-- The chosen hosts from an object inwards are replaced once those strictly inside it are. -/
theorem run?_object (slot : Slot) (hsound : slot.Sound) (chosen : Pointer → Bool)
    {members : List (String × Json)}
    (hinside : run? sentinel (among chosen (allInMembers [] members)).reverse (.object members) =
      (membersImageWhere? sentinel chosen members).map fun (members, count) =>
        (count, .object members)) :
    run? sentinel ((among chosen (allIn [] (.object members))).map (under slot.base)).reverse
        (slot.put (.object members)) =
      (imageWhere? sentinel chosen (.object members)).map fun (image, count) =>
        (count, slot.fill image) := by
  have hplaces : ∀ host ∈ (among chosen (allInMembers [] members)).reverse, host.place ≠ [] :=
    fun host hhost => place_ne_of_mem_allInMembers (mem_of_mem_among (List.mem_reverse.mp hhost))
  rw [allIn, among_append, List.map_append, List.reverse_append, ← List.map_reverse,
    run?_append, run?_under sentinel slot hsound hplaces, hinside, imageWhere?]
  cases himage : membersImageWhere? sentinel chosen members with
  | none => rfl
  | some rewritten =>
    obtain ⟨members', count⟩ := rewritten
    rw [← here_congr (keys_membersImageWhere? himage)]
    simp only [Option.map_some, Option.bind_eq_bind, Option.bind_some, here]
    cases hhosted : hosted? members' with
    | none => simp [run?, among]
    | some found =>
      obtain ⟨label, specification⟩ := found
      rw [hosted?_eq_some_iff] at hhosted
      subst hhosted
      cases hchosen : chosen Pointer.root with
      | false =>
        have hamong : among chosen [⟨label, []⟩] = [] :=
          List.filter_cons_of_neg (Bool.eq_false_iff.mp hchosen)
        simp [hamong, run?]
      | true =>
        have hamong : among chosen [⟨label, []⟩] = [⟨label, []⟩] := List.filter_cons_of_pos hchosen
        have hself : Host.under slot.base ⟨label, []⟩ = ⟨label, slot.base⟩ := by
          rw [under, List.append_nil]
        simp only [hamong, if_true, List.map_singleton, hself, List.reverse_singleton, run?,
          step?_self sentinel slot hsound]
        cases Specification.clauses? sentinel label specification with
        | none => rfl
        | some clauses => simp [Nat.add_comm]

mutual

/-- Replacing the chosen hosts of a value from the last to the first, wherever it stands, puts
the image of the value at the chosen places in its slot. -/
theorem run?_slot (slot : Slot) (hsound : slot.Sound) (chosen : Pointer → Bool) (value : Json)
    (hordered : value.IsOrdered) :
    run? sentinel ((among chosen (allIn [] value)).map (under slot.base)).reverse
        (slot.put value) =
      (imageWhere? sentinel chosen value).map fun (image, count) =>
        (count, slot.fill image) := by
  cases value with
  | object members =>
    obtain ⟨hkeys, hmembers⟩ := hordered
    apply run?_object sentinel slot hsound
    simpa using run?_members chosen [] members [] hkeys hmembers
  | array items =>
    have hplaces : ∀ host ∈ (among chosen (allInItems [] 0 items)).reverse, host.place ≠ [] :=
      fun host hhost => place_ne_of_mem_allInItems (mem_of_mem_among (List.mem_reverse.mp hhost))
    have hitems : run? sentinel (among chosen (allInItems [] 0 items)).reverse (.array items) =
        (itemsImageWhere? sentinel chosen 0 items).map fun (images, count) =>
          (count, .array images) := by
      simpa using run?_items chosen [] items [] hordered
    rw [allIn, ← List.map_reverse, run?_under sentinel slot hsound hplaces, imageWhere?, hitems]
    cases itemsImageWhere? sentinel chosen 0 items <;> simp
  | null | bool _ | number _ | string _ => simp [allIn, among, run?, imageWhere?]

/-- Replacing the chosen hosts in some elements of an array rewrites these elements. -/
theorem run?_items (chosen : Pointer → Bool) (before items after : List Json)
    (hordered : ItemsOrdered items) :
    run? sentinel (among chosen (allInItems [] before.length items)).reverse
        (.array (before ++ items ++ after)) =
      (itemsImageWhere? sentinel chosen before.length items).map fun (images, count) =>
        (count, .array (before ++ images ++ after)) := by
  match items with
  | [] => simp [allInItems, among, run?, itemsImageWhere?]
  | item :: rest =>
    obtain ⟨hitem, hrest⟩ := hordered
    have hothers := run?_items chosen (before ++ [item]) rest after hrest
    rw [List.length_append, List.length_singleton, List.append_assoc before] at hothers
    rw [allInItems, allIn_eq_map, among_append, among_map_under, List.reverse_append,
      run?_append, itemsImageWhere?]
    simp only [List.cons_append, List.nil_append, List.append_assoc] at hothers ⊢
    rw [hothers]
    cases itemsImageWhere? sentinel chosen (before.length + 1) rest with
    | none => cases imageWhere? sentinel _ item <;> rfl
    | some others =>
      obtain ⟨images, count⟩ := others
      have hslot := run?_slot (.item before (images ++ after)) trivial
        (fun place => chosen (.index before.length :: place)) item hitem
      simp only [Slot.base, Slot.put, Slot.fill] at hslot
      simp only [Option.map_some, Option.bind_eq_bind, Option.bind_some]
      change (run? sentinel ((among (fun place => chosen (.index before.length :: place))
        (allIn [] item)).map (under [.index before.length])).reverse _).bind _ = _
      rw [hslot]
      cases imageWhere? sentinel _ item <;> simp [Nat.add_comm]

/-- Replacing the chosen hosts in some members of an object rewrites these members. -/
theorem run?_members (chosen : Pointer → Bool) (before members after : List (String × Json))
    (hkeys : KeysOrdered (before ++ members)) (hordered : MembersOrdered members) :
    run? sentinel (among chosen (allInMembers [] members)).reverse
        (.object (before ++ members ++ after)) =
      (membersImageWhere? sentinel chosen members).map fun (images, count) =>
        (count, .object (before ++ images ++ after)) := by
  match members with
  | [] => simp [allInMembers, among, run?, membersImageWhere?]
  | (key, value) :: rest =>
    obtain ⟨hvalue, hrest⟩ := hordered
    have hothers := run?_members chosen (before ++ [(key, value)]) rest after
      (by simpa using hkeys) hrest
    rw [allInMembers, allIn_eq_map, among_append, among_map_under, List.reverse_append,
      run?_append, membersImageWhere?]
    simp only [List.cons_append, List.nil_append, List.append_assoc] at hothers ⊢
    rw [hothers]
    cases membersImageWhere? sentinel chosen rest with
    | none => cases imageWhere? sentinel _ value <;> rfl
    | some others =>
      obtain ⟨images, count⟩ := others
      have hsound : (Slot.member before key (images ++ after)).Sound := by
        intro member hmember heq
        have hlt := (List.pairwise_append.mp hkeys).2.2 member hmember _ List.mem_cons_self
        rw [heq] at hlt
        exact String.lt_irrefl key hlt
      have hslot := run?_slot (.member before key (images ++ after)) hsound
        (fun place => chosen (.key key :: place)) value hvalue
      simp only [Slot.base, Slot.put, Slot.fill] at hslot
      simp only [Option.map_some, Option.bind_eq_bind, Option.bind_some]
      change (run? sentinel ((among (fun place => chosen (.key key :: place))
        (allIn [] value)).map (under [.key key])).reverse _).bind _ = _
      rw [hslot]
      cases imageWhere? sentinel _ value <;> simp [Nat.add_comm]

end

/-- Replacing the chosen hosts of a document from the last to the first rewrites it at their
places. -/
theorem run?_among {document : Json} (hordered : document.IsOrdered) (chosen : Pointer → Bool) :
    run? sentinel (among chosen (allIn [] document)).reverse document =
      (document.rewriteWhere? sentinel chosen).map fun (rewritten, count) =>
        (count, rewritten) := by
  have hslot := run?_slot sentinel .root trivial chosen document hordered
  have hroot : under Slot.root.base = id := rfl
  rw [hroot, List.map_id, Slot.put] at hslot
  rw [hslot, rewriteWhere?, Option.map_map]
  rfl

end Host

end Semijoin
