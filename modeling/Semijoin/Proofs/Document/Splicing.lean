import Semijoin.Proofs.Document.Turn
import Semijoin.Proofs.Pointer.Precedence

/-!
# What a splice changes

A host is replaced by changing the object or the array that it stands in, and nothing else. In an
array the elements behind it move by the number of the clauses, less the one element that went. All
other values stay where they were. A splice that is refused leaves the document as it was.
-/

namespace Semijoin

open Json

/-- Giving a member that is there a new value leaves the others alone. -/
theorem Json.KeysOrdered.insertMember_append_cons {before after : List (String × Json)}
    {key : String} {old : Json} (h : KeysOrdered (before ++ (key, old) :: after)) (value : Json) :
    Json.insertMember key value (before ++ (key, old) :: after) =
      before ++ (key, value) :: after := by
  induction before with
  | nil => simp [Json.insertMember]
  | cons first rest ih =>
    obtain ⟨hfirst, hrest⟩ := List.pairwise_cons.mp h
    have hlt : first.1 < key := hfirst (key, old) (by simp)
    rw [List.cons_append, Json.insertMember, if_neg (String.lt_asymm hlt),
      if_neg (String.ne_of_lt hlt).symm, ih hrest, List.cons_append]

namespace Pointer

variable {clauses : List Json} {value : Json}

/-- A value is changed inside a member by changing the member. -/
theorem modify?_key (change : Json → Option Json) (name : String) (rest : Pointer)
    (members : List (String × Json)) :
    modify? change (.key name :: rest) (.object members) = do
      let member ← members.lookup name
      let member ← rest.modify? change member
      return .object (setMember name member members) := by
  unfold modify?
  cases hmember : members.lookup name with
  | none => simp [resolve?, hmember]
  | some member => simp [resolve?, replace?, hmember, Option.bind_assoc]

/-- A value is changed inside an element by changing the element. -/
theorem modify?_index (change : Json → Option Json) (position : Nat) (rest : Pointer)
    (items : List Json) :
    modify? change (.index position :: rest) (.array items) = do
      let item ← items[position]?
      let item ← rest.modify? change item
      return .array (items.set position item) := by
  unfold modify?
  cases hitem : items[position]? with
  | none => simp [resolve?, hitem]
  | some item => simp [resolve?, replace?, hitem, Option.bind_assoc]

/-- Clauses go to a place inside a value by changing the value. -/
theorem fill?_append_eq_modify? (p : Pointer) {inner : Pointer} (hinner : inner ≠ []) :
    fill? clauses (p ++ inner) value = p.modify? (fill? clauses inner) value := by
  induction p generalizing value with
  | nil => exact (Option.bind_fun_some (fill? clauses inner value)).symm
  | cons segment rest ih =>
    cases segment with
    | key name =>
      cases value with
      | object members =>
        rw [modify?_key, List.cons_append, fill?]
        simp only [ih]
      | null | bool _ | number _ | string _ | array _ => rfl
    | index position =>
      -- An element that is itself filled has an equation of its own, so more has to follow it.
      obtain ⟨next, others, hnext⟩ :=
        List.exists_cons_of_ne_nil (List.append_ne_nil_of_right_ne_nil rest hinner)
      rw [List.cons_append, hnext]
      cases value with
      | array items =>
        rw [modify?_index, fill?, ← hnext]
        · simp only [ih]
        · exact List.cons_ne_nil next others
      | null | bool _ | number _ | string _ | object _ => rfl

variable {filled : Json}

/-- Clauses take the place of a member. -/
theorem fill?_key_singleton {name : String} (h : fill? clauses [.key name] value = some filled) :
    ∃ before old after, value = .object (before ++ (name, old) :: after) ∧
      filled = .object (before ++ (name, .array clauses) :: after) := by
  obtain ⟨members, old, filled', rfl, hold, hfill, rfl⟩ := fill?_key h
  cases hfill
  obtain ⟨before, after, rfl, hbefore⟩ := List.lookup_eq_some_iff.mp hold
  refine ⟨before, old, after, rfl, ?_⟩
  rw [setMember_append_cons fun member hmember => ?_]
  simpa using (bne_iff_ne.mp (hbefore member hmember)).symm

/-- Clauses take the place of an element, one element each. -/
theorem fill?_index_singleton {position : Nat}
    (h : fill? clauses [.index position] value = some filled) :
    ∃ before old after, before.length = position ∧ value = .array (before ++ old :: after) ∧
      filled = .array (before ++ clauses ++ after) := by
  cases value with
  | array items =>
    rw [fill?] at h
    split at h
    · rename_i hposition
      cases h
      refine ⟨items.take position, items[position], items.drop (position + 1), ?_, ?_, rfl⟩
      · exact List.length_take_of_le (Nat.le_of_lt hposition)
      · rw [List.getElem_cons_drop, List.take_append_drop]
    · cases h
  | null | bool _ | number _ | string _ | object _ => cases h

/-- Clauses take the place of a value by changing what it stands in. -/
theorem fill?_singleton {segment : Segment} (hordered : value.IsOrdered)
    (h : fill? clauses [segment] value = some filled) :
    segment.fillIn? clauses value = some filled := by
  cases segment with
  | key name =>
    obtain ⟨before, old, after, rfl, rfl⟩ := fill?_key_singleton h
    rw [Segment.fillIn?, hordered.1.insertMember_append_cons]
  | index position =>
    obtain ⟨before, old, after, rfl, rfl, rfl⟩ := fill?_index_singleton h
    simp [Segment.fillIn?]

/-- Clauses leave alone what parts from their place, apart from the elements behind an element
whose place they take. -/
theorem resolve?_fill?_of_ne {segment other : Segment} {inner rest : Pointer}
    (hne : other ≠ segment)
    (hahead : inner = [] → ∀ position later, segment = .index position → other = .index later →
      later < position)
    (h : fill? clauses (segment :: inner) value = some filled) :
    resolve? (other :: rest) filled = resolve? (other :: rest) value := by
  cases segment with
  | key name =>
    obtain ⟨members, member, member', rfl, -, -, rfl⟩ := fill?_key h
    cases other with
    | key name' =>
      have hname : name' ≠ name := fun heq => hne (congrArg Segment.key heq)
      simp only [resolve?, lookup_setMember, if_neg hname]
    | index position => rfl
  | index position =>
    cases other with
    | key name =>
      -- No key leads into an array, neither before nor after.
      obtain ⟨items, items', rfl, rfl, -⟩ := fill?_index_earlier h
      rfl
    | index other =>
      by_cases hinner : inner = []
      · obtain ⟨items, items', rfl, rfl, hearlier⟩ := fill?_index_earlier h
        simp only [resolve?, hearlier other (hahead hinner position other rfl rfl)]
      · obtain ⟨items, item, item', rfl, -, -, rfl⟩ := fill?_index hinner h
        have hposition : position ≠ other := fun heq => hne (congrArg Segment.index heq.symm)
        simp only [resolve?, List.getElem?_set_ne hposition]

/-- Clauses leave alone what parts from their place further in. -/
theorem resolve?_fill?_of_parts {common inner rest : Pointer} {segment other : Segment}
    (hne : other ≠ segment)
    (hahead : inner = [] → ∀ position later, segment = .index position → other = .index later →
      later < position)
    (h : fill? clauses (common ++ segment :: inner) value = some filled) :
    (common ++ other :: rest).resolve? filled = (common ++ other :: rest).resolve? value := by
  obtain ⟨found, found', hfound, hfill, hfound'⟩ := fill?_append (List.cons_ne_nil segment inner) h
  rw [resolve?_append, resolve?_append, hfound, hfound']
  exact resolve?_fill?_of_ne hne hahead hfill

/-- The elements behind an element move by the number of the clauses that take its place, less
one. -/
theorem resolve?_fill?_later {parent rest : Pointer} {position later : Nat}
    (hlater : position < later) (h : fill? clauses (parent.index position) value = some filled) :
    (parent ++ .index (later + clauses.length - 1) :: rest).resolve? filled =
      (parent ++ .index later :: rest).resolve? value := by
  obtain ⟨found, found', hfound, hfill, hfound'⟩ := fill?_append (List.cons_ne_nil _ []) h
  obtain ⟨before, old, after, rfl, rfl, rfl⟩ := fill?_index_singleton hfill
  have hmoved : (before ++ clauses ++ after)[later + clauses.length - 1]? =
      (before ++ old :: after)[later]? := by
    rw [List.getElem?_append_right (by simp; omega),
      List.getElem?_append_right (Nat.le_of_lt hlater), List.getElem?_cons, if_neg (by omega)]
    congr 1
    simp
    omega
  rw [resolve?_append, resolve?_append, hfound, hfound']
  simp only [Option.bind_eq_bind, Option.bind_some, resolve?, hmoved]

/-- What a document becomes when clauses take the place of one of its values. -/
structure Filled (place : Pointer) (clauses : List Json) (document filled : Json) : Prop where
  /-- The whole document becomes the array of the clauses. -/
  root : place = Pointer.root → filled = .array clauses
  /-- A member becomes the array of the clauses, and its object is all that changes. -/
  member : ∀ (parent : Pointer) name, place = parent.key name → ∃ before old after,
    parent.resolve? document = some (.object (before ++ (name, old) :: after)) ∧
    parent.resolve? filled = some (.object (before ++ (name, .array clauses) :: after)) ∧
    parent.replace? (.object (before ++ (name, .array clauses) :: after)) document = some filled
  /-- The clauses stand in the place of an element, and its array is all that changes. -/
  element : ∀ (parent : Pointer) position, place = parent.index position → ∃ before old after,
    List.length before = position ∧
    parent.resolve? document = some (.array (before ++ old :: after)) ∧
    parent.resolve? filled = some (.array (before ++ clauses ++ after)) ∧
    parent.replace? (.array (before ++ clauses ++ after)) document = some filled
  /-- The elements before the element stay where they are. -/
  earlier : ∀ (parent : Pointer) position, place = parent.index position →
    ∀ earlier < position, ∀ rest : Pointer,
      (parent ++ .index earlier :: rest).resolve? filled =
        (parent ++ .index earlier :: rest).resolve? document
  /-- The elements behind the element move by the number of the clauses, less one. -/
  later : ∀ (parent : Pointer) position, place = parent.index position →
    ∀ later > position, ∀ rest : Pointer,
      (parent ++ .index (later + clauses.length - 1) :: rest).resolve? filled =
        (parent ++ .index later :: rest).resolve? document
  /-- What parts from the place before its last segment, or at the key of a member, stays. -/
  elsewhere : ∀ (common : Pointer) segment inner, place = common ++ segment :: inner →
    (inner ≠ [] ∨ ∃ name, segment = .key name) → ∀ other ≠ segment, ∀ rest,
      (common ++ other :: rest).resolve? filled = (common ++ other :: rest).resolve? document
  /-- What comes before the place in preorder stays, unless the place is inside it. -/
  before : ∀ p : Pointer, p.Before place → ¬ p <+: place → p.resolve? filled = p.resolve? document

/-- Clauses that go to a place inside a document go to one in a value that is then replaced. -/
theorem replace?_of_fill? {parent : Pointer} {segment : Segment}
    (h : fill? clauses (parent ++ [segment]) value = some filled) :
    ∃ found found', parent.resolve? value = some found ∧
      fill? clauses [segment] found = some found' ∧ parent.resolve? filled = some found' ∧
      parent.replace? found' value = some filled := by
  obtain ⟨found, found', hfound, hfill, hfound'⟩ := fill?_append (List.cons_ne_nil segment []) h
  rw [fill?_append_eq_modify? parent (List.cons_ne_nil segment []), modify?, hfound] at h
  simp only [Option.bind_eq_bind, Option.bind_some, hfill] at h
  exact ⟨found, found', hfound, hfill, hfound', h⟩

/-- Clauses go to a place inside an ordered document by changing what the place is in. -/
theorem modify?_of_fill? {parent : Pointer} {segment : Segment} (hordered : value.IsOrdered)
    (h : fill? clauses (parent ++ [segment]) value = some filled) :
    parent.modify? (segment.fillIn? clauses) value = some filled := by
  obtain ⟨found, found', hfound, hfill, -, hreplace⟩ := replace?_of_fill? h
  have hchange := fill?_singleton (hordered.resolve? hfound) hfill
  simp only [modify?, hfound, hchange, hreplace, Option.bind_eq_bind, Option.bind_some]

/-- A document is told by the clauses that take the place of one of its values. -/
theorem filled_of_fill? {place : Pointer} (h : place.fill? clauses value = some filled) :
    Filled place clauses value filled where
  root := by
    rintro rfl
    exact (Option.some.inj h).symm
  member := by
    rintro parent name rfl
    obtain ⟨found, found', hfound, hfill, hfound', hreplace⟩ := replace?_of_fill? h
    obtain ⟨before, old, after, rfl, rfl⟩ := fill?_key_singleton hfill
    exact ⟨before, old, after, hfound, hfound', hreplace⟩
  element := by
    rintro parent position rfl
    obtain ⟨found, found', hfound, hfill, hfound', hreplace⟩ := replace?_of_fill? h
    obtain ⟨before, old, after, hlength, rfl, rfl⟩ := fill?_index_singleton hfill
    exact ⟨before, old, after, hlength, hfound, hfound', hreplace⟩
  earlier := by
    rintro parent position rfl earlier hearlier rest
    refine resolve?_fill?_of_parts (fun heq => ?_) ?_ h
    · cases heq
      exact Nat.lt_irrefl _ hearlier
    · rintro - _ _ ⟨⟩ ⟨⟩
      exact hearlier
  later := by
    rintro parent position rfl later hlater rest
    exact resolve?_fill?_later hlater h
  elsewhere := by
    rintro common segment inner rfl hsettled other hne rest
    refine resolve?_fill?_of_parts hne (fun hinner position later hsegment _ => ?_) h
    rcases hsettled with hinner' | ⟨name, hname⟩
    · exact absurd hinner hinner'
    · cases hname.symm.trans hsegment
  before := by
    intro p hbefore hprefix
    rcases hbefore.prefix_or_parts with hprefix' | ⟨common, a, b, rest, inner, rfl, rfl, hlt⟩
    · exact absurd hprefix' hprefix
    · refine resolve?_fill?_of_parts ?_ (fun _ position earlier hposition hearlier => ?_) h
      · rintro rfl
        exact Segment.order_asymm hlt hlt
      · subst hposition hearlier
        exact Segment.order_index_eq_lt_iff.mp hlt

end Pointer

namespace Host

variable {host : Host} (clauses : List Json) {document : Json}

/-- Only an object whose one key is the label holds it. -/
theorem holds_iff {label : Label} {value : Json} :
    holds label value = true ↔ ∃ specification, value = .object [(label.key, specification)] := by
  constructor
  · intro h
    unfold holds at h
    split at h
    · rename_i key specification
      exact ⟨specification, by rw [of_decide_eq_true h]⟩
    · cases h
  · rintro ⟨specification, rfl⟩
    exact decide_eq_true rfl

/-- A host whose place there is not is missing. -/
theorem splice_of_resolve?_eq_none (h : host.place.resolve? document = none) :
    host.splice clauses document = .error (.malformed (.hostMissing host.label) host.place) := by
  rw [splice, h]
  rfl

/-- A host is in conflict with anything else at its place. -/
theorem splice_of_not_holds {value : Json} (h : host.place.resolve? document = some value)
    (hholds : holds host.label value = false) :
    host.splice clauses document = .error (.crowdedHost host.label host.place) := by
  rw [splice, h]
  simp only [hholds]
  rfl

/-- A host that is at its place is replaced by filling the place. -/
theorem exists_splice_of_holds {value : Json} (h : host.place.resolve? document = some value)
    (hholds : holds host.label value = true) :
    ∃ filled, host.splice clauses document = .ok filled ∧
      host.place.fill? clauses document = some filled := by
  obtain ⟨filled, hfill⟩ : ∃ filled, host.place.fill? clauses document = some filled :=
    Pointer.exists_fill?_of_resolve? h
  refine ⟨filled, ?_, hfill⟩
  rw [splice, h]
  simp only [hholds, hfill]
  rfl

/-- A host that has been replaced was at its place, and its place was filled. -/
theorem exists_of_splice_eq_ok {spliced : Json} (h : host.splice clauses document = .ok spliced) :
    ∃ value, host.place.resolve? document = some value ∧ holds host.label value = true ∧
      host.place.fill? clauses document = some spliced := by
  cases hfound : host.place.resolve? document with
  | none =>
    rw [splice_of_resolve?_eq_none clauses hfound] at h
    cases h
  | some value =>
    cases hholds : holds host.label value with
    | false =>
      rw [splice_of_not_holds clauses hfound hholds] at h
      cases h
    | true =>
      obtain ⟨filled, hsplice, hfill⟩ := exists_splice_of_holds clauses hfound hholds
      rw [hsplice] at h
      cases h
      exact ⟨value, rfl, hholds, hfill⟩

/-- In the document at hand a host is replaced in the same way, and a refusal leaves the document
as it was. -/
theorem run_spliceInPlace (host : Host) (clauses : List Json) (hordered : document.IsOrdered) :
    (host.spliceInPlace clauses).run document =
      match host.splice clauses document with
      | .ok spliced => .ok () spliced
      | .error fault => .error fault document := by
  cases hfound : host.place.resolve? document with
  | none =>
    rw [splice_of_resolve?_eq_none clauses hfound]
    simp [spliceInPlace, EStateM.run_bind, hfound]
  | some value =>
    cases hholds : holds host.label value with
    | false =>
      rw [splice_of_not_holds clauses hfound hholds]
      simp [spliceInPlace, hfound, hholds]
    | true =>
      obtain ⟨filled, hsplice, hfill⟩ := exists_splice_of_holds clauses hfound hholds
      rw [hsplice]
      rcases List.eq_nil_or_concat host.place with hplace | ⟨parent, segment, hplace⟩
      · rw [hplace] at hfound hfill
        cases hfill
        simp [spliceInPlace, hfound, hholds, hplace, Pointer.splitLast?]
      · rw [hplace, List.concat_eq_append] at hfound hfill
        have hmodify := Pointer.modify?_of_fill? hordered hfill
        simp [spliceInPlace, hfound, hholds, hplace, Pointer.splitLast?, hmodify]

/-- A splice takes the place of the host that it is for, and is refused if that host is not at its
place: because there is nothing, or because there is something else. A refusal leaves the document
as it was. Otherwise what the clauses take the place of is all that changes. -/
theorem splice_in_place (host : Host) (clauses : List Json) (hordered : document.IsOrdered) :
    ((∃ spliced, host.splice clauses document = .ok spliced) ↔
      ∃ specification,
        host.place.resolve? document = some (.object [(host.label.key, specification)])) ∧
    (host.place.resolve? document = none →
      host.splice clauses document = .error (.malformed (.hostMissing host.label) host.place) ∧
      (host.spliceInPlace clauses).run document =
        .error (.malformed (.hostMissing host.label) host.place) document) ∧
    (∀ value, host.place.resolve? document = some value →
      (∀ specification, value ≠ .object [(host.label.key, specification)]) →
      host.splice clauses document = .error (.crowdedHost host.label host.place) ∧
      (host.spliceInPlace clauses).run document =
        .error (.crowdedHost host.label host.place) document) ∧
    (∀ spliced, host.splice clauses document = .ok spliced →
      (host.spliceInPlace clauses).run document = .ok () spliced ∧
      host.place.Filled clauses document spliced) := by
  have hrun := run_spliceInPlace host clauses hordered
  refine ⟨⟨?_, ?_⟩, fun hmissing => ?_, fun value hfound hother => ?_, fun spliced hspliced => ?_⟩
  · rintro ⟨spliced, hspliced⟩
    obtain ⟨value, hfound, hholds, -⟩ := exists_of_splice_eq_ok clauses hspliced
    obtain ⟨specification, rfl⟩ := holds_iff.mp hholds
    exact ⟨specification, hfound⟩
  · rintro ⟨specification, hfound⟩
    obtain ⟨spliced, hspliced, -⟩ := exists_splice_of_holds clauses hfound (holds_iff.mpr ⟨_, rfl⟩)
    exact ⟨spliced, hspliced⟩
  · have hsplice := splice_of_resolve?_eq_none clauses hmissing
    rw [hsplice] at hrun
    exact ⟨hsplice, hrun⟩
  · have hholds : holds host.label value = false := by
      refine Bool.eq_false_iff.mpr fun hholds => ?_
      obtain ⟨specification, heq⟩ := holds_iff.mp hholds
      exact hother specification heq
    have hsplice := splice_of_not_holds clauses hfound hholds
    rw [hsplice] at hrun
    exact ⟨hsplice, hrun⟩
  · obtain ⟨value, -, -, hfill⟩ := exists_of_splice_eq_ok clauses hspliced
    rw [hspliced] at hrun
    exact ⟨hrun, Pointer.filled_of_fill? hfill⟩

/-- A document with a host between two clauses. -/
def betweenClauses : Json :=
  .object [("filter", .array [.object [("exists", .null)], .object [("join_set", .null)],
    .object [("term", .string "b")]])]

/-- Two clauses in the place of the host move the clause behind it by one. -/
theorem splice_betweenClauses :
    betweenClauses.IsOrdered ∧ ∃ spliced,
      splice ⟨.joinSet, [.key "filter", .index 1]⟩ [.null, .null] betweenClauses = .ok spliced ∧
      Pointer.resolve? [.key "filter", .index 3, .key "term"] spliced = some (.string "b") := by
  have hordered : betweenClauses.IsOrdered := by decide
  obtain ⟨hiff, -, -, hspliced⟩ :=
    splice_in_place ⟨.joinSet, [.key "filter", .index 1]⟩ [.null, .null] hordered
  obtain ⟨spliced, hsplice⟩ := hiff.mpr ⟨.null, rfl⟩
  have hlater := (hspliced spliced hsplice).2.later [.key "filter"] 1 rfl 2 (by decide)
  exact ⟨hordered, spliced, hsplice, hlater [.key "term"]⟩

end Host

end Semijoin
