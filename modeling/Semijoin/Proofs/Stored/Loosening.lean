import Mathlib.Data.List.Forall2
import Semijoin.Stored.Endpoint
import Semijoin.Stored.Form

/-!
# Loosened stored forms

The stored form of a specification has every member. Reading asks for less: a member that has its
default may be missing, and there may be members that are not known. A value is loosened when such
members have been taken out and put in, at any places that the form tells of. An object may also be
written as the row of its members. What is read from a loosened value is what is read from the
stored one, part by part.
-/

namespace Semijoin

/-- The members that may be missing, with the values that they have then. -/
def Stored.defaults : List (String × Json) :=
  [("negate", .bool false), ("origin", Pointer.root.toStored), ("queries", .object []),
    ("orderBy", .null), ("termsEncoding", .null)]

namespace Form

/-- A stored value may be changed to another one of the same form without a change of what is read:
a known member is kept with a change of the same kind, or is taken out while it has its default;
members that are not known are of no account. Known members may stand in a row. -/
inductive Loosens : Form → Json → Json → Prop
  | value (stored : Json) : Loosens .value stored stored
  | list {item : Form} {stored changed : List Json} (hlength : stored.length = changed.length)
    (hitems : ∀ (position : Nat) (old new : Json), stored[position]? = some old →
      changed[position]? = some new → Loosens item old new) :
    Loosens (.list item) (.array stored) (.array changed)
  | table {item : Form} {stored changed : List (String × Json)}
    (hkeys : stored.map Prod.fst = changed.map Prod.fst)
    (hentries : ∀ (position : Nat) (old new : String × Json), stored[position]? = some old →
      changed[position]? = some new → Loosens item old.2 new.2) :
    Loosens (.table item) (.object stored) (.object changed)
  | fields {known : List (String × Form)} {stored changed : List (String × Json)}
    (hkept : ∀ key form old new, (key, form) ∈ known → stored.lookup key = some old →
      changed.lookup key = some new → Loosens form old new)
    (hremoved : ∀ key form old, (key, form) ∈ known → stored.lookup key = some old →
      changed.lookup key = none → (key, old) ∈ Stored.defaults) :
    Loosens (.fields known) (.object stored) (.object changed)
  | row {known : List (String × Form)} {stored : List (String × Json)} {row : List Json}
    (hlength : row.length ≤ known.length)
    (hmembers : Loosens (.fields known) (.object stored)
      (.object ((known.map Prod.fst).zip row))) :
    Loosens (.fields known) (.object stored) (.array row)
  | word {variants : List (String × Form)} (text : String) :
    Loosens (.choice variants) (.string text) (.string text)
  | variant {variants : List (String × Form)} {name : String} {form : Form} {old new : Json}
    (hname : (name, form) ∈ variants) (hvalue : Loosens form old new) :
    Loosens (.choice variants) (.object [(name, old)]) (.object [(name, new)])
  | chain {stored changed : Json} (h : Loosens Form.chain.unfold stored changed) :
    Loosens .chain stored changed

namespace Loosens

variable {known : List (String × Form)} {old : List (String × Json)} {key : String} {form : Form}

/-- A known member is kept, loosened itself, or it has been taken out with its default. -/
def Keeps (new : List (String × Json)) (key : String) (form : Form) (stored : Json) : Prop :=
  (∃ changed, new.lookup key = some changed ∧ Loosens form stored changed) ∨
    new.lookup key = none ∧ (key, stored) ∈ Stored.defaults

/-- Known members of an object or of a row are kept or have their defaults. -/
theorem exists_members? (form : Form) (hform : form.unfold = .fields known) {value : Json}
    (h : Loosens (.fields known) (.object old) value) :
    ∃ new, form.members? value = some new ∧ ∀ key form stored, (key, form) ∈ known →
      old.lookup key = some stored → Keeps new key form stored := by
  have hkeeps {new : List (String × Json)} (h : Loosens (.fields known) (.object old) (.object new))
      (key : String) (form : Form) (stored : Json) (hknown : (key, form) ∈ known)
      (hstored : old.lookup key = some stored) : Keeps new key form stored := by
    cases h with
    | fields hkept hremoved =>
      cases hnew : new.lookup key with
      | none => exact .inr ⟨hnew, hremoved key form stored hknown hstored hnew⟩
      | some changed =>
        exact .inl ⟨changed, hnew, hkept key form stored changed hknown hstored hnew⟩
  cases h with
  | fields hkept hremoved => exact ⟨_, rfl, hkeeps (.fields hkept hremoved)⟩
  | row hlength hmembers =>
    refine ⟨_, ?_, hkeeps hmembers⟩
    simp only [Form.members?, hform, if_pos hlength]

variable {α : Type} {new : List (String × Json)} {stored : Json} {read : Json → Option α} {a : α}

/-- A member without a default is kept. -/
theorem Keeps.exists_lookup (h : Keeps new key form stored)
    (hkept : (key, stored) ∉ Stored.defaults) :
    ∃ changed, new.lookup key = some changed ∧ Loosens form stored changed :=
  h.resolve_right fun hremoved => hkept hremoved.2

/-- A member without a default is read as before. -/
theorem required?_eq_some (h : Keeps new key form stored)
    (hkept : (key, stored) ∉ Stored.defaults)
    (hread : ∀ changed, Loosens form stored changed → read changed = some a) :
    Stored.required? new key read = some a := by
  obtain ⟨changed, hlookup, hchanged⟩ := h.exists_lookup hkept
  rw [Stored.required?, hlookup]
  exact hread changed hchanged

/-- A member with a default is read as before, and so is its absence. -/
theorem optional?_eq_some {default : α} (h : Keeps new key form stored)
    (hdefault : (key, stored) ∈ Stored.defaults → a = default)
    (hread : ∀ changed, Loosens form stored changed → read changed = some a) :
    Stored.optional? new key default read = some a := by
  rcases h with ⟨changed, hlookup, hchanged⟩ | ⟨hlookup, hmem⟩
  · rw [Stored.optional?, hlookup]
    exact hread changed hchanged
  · rw [Stored.optional?, hlookup, hdefault hmem]

/-- The elements of an array are loosened one by one. -/
theorem exists_of_list {item : Form} {items : List Json} {value : Json}
    (h : Loosens (.list item) (.array items) value) :
    ∃ changed, value = .array changed ∧ List.Forall₂ (Loosens item) items changed := by
  cases h with
  | @list _ _ changed hlength hitems =>
    refine ⟨changed, rfl, List.forall₂_iff_get.mpr ⟨hlength, fun position hold hnew => ?_⟩⟩
    exact hitems position _ _ (List.getElem?_eq_getElem hold) (List.getElem?_eq_getElem hnew)

/-- The entries of a table are loosened one by one and keep their keys. -/
theorem exists_of_table {item : Form} {entries : List (String × Json)} {value : Json}
    (h : Loosens (.table item) (.object entries) value) :
    ∃ changed, value = .object changed ∧
      List.Forall₂ (fun old new => old.1 = new.1 ∧ Loosens item old.2 new.2) entries changed := by
  cases h with
  | @table _ _ changed hkeys hentries =>
    have hlength : entries.length = changed.length := by
      simpa using congrArg List.length hkeys
    refine ⟨changed, rfl, List.forall₂_iff_get.mpr ⟨hlength, fun position hold hnew => ⟨?_, ?_⟩⟩⟩
    · have hkey := congrArg (fun keys => keys[position]?) hkeys
      simpa [hold, hnew] using hkey
    · exact hentries position _ _ (List.getElem?_eq_getElem hold) (List.getElem?_eq_getElem hnew)

/-- Loosened elements are read as before. -/
theorem mapM_eq_some {item : Form} {store : α → Json} {values : List α} {changed : List Json}
    (hread : ∀ a ∈ values, ∀ new, Loosens item (store a) new → read new = some a)
    (h : List.Forall₂ (Loosens item) (values.map store) changed) :
    changed.mapM read = some values := by
  induction values generalizing changed with
  | nil =>
    cases h
    rfl
  | cons first rest ih =>
    obtain ⟨hfirst, hrest⟩ := List.forall_mem_cons.mp hread
    cases h with
    | cons hhead htail =>
      rw [List.mapM_cons, hfirst _ hhead, ih hrest htail]
      rfl

/-- A loosened array is read as before. -/
theorem array?_eq_some {item : Form} {store : α → Json} {values : List α} {value : Json}
    (h : Loosens (.list item) (.array (values.map store)) value)
    (hread : ∀ a ∈ values, ∀ new, Loosens item (store a) new → read new = some a) :
    Stored.array? read value = some values := by
  obtain ⟨changed, rfl, hchanged⟩ := exists_of_list h
  exact mapM_eq_some hread hchanged

/-- A loosened pair is read as before. -/
theorem pair?_eq_some {item : Form} {store : α → Json} {first second : α} {value : Json}
    (h : Loosens (.list item) (.array [store first, store second]) value)
    (hread : ∀ a new, Loosens item (store a) new → read new = some a) :
    Stored.pair? read value = some (first, second) := by
  obtain ⟨changed, rfl, hchanged⟩ := exists_of_list h
  cases hchanged with
  | cons hfirst hrest =>
    cases hrest with
    | cons hsecond hrest =>
      cases hrest
      simp only [Stored.pair?, hread _ _ hfirst, hread _ _ hsecond]
      rfl

/-- An object is loosened when its known members are kept or have their defaults. -/
theorem fields_of_keeps
    (h : ∀ key form stored, (key, form) ∈ known → old.lookup key = some stored →
      Keeps new key form stored) : Loosens (.fields known) (.object old) (.object new) := by
  refine .fields (fun key form stored changed hknown hstored hchanged => ?_)
    (fun key form stored hknown hstored hnone => ?_)
  · rcases h key form stored hknown hstored with ⟨found, hfound, hloosens⟩ | ⟨hnone, -⟩
    · cases hchanged.symm.trans hfound
      exact hloosens
    · cases hchanged.symm.trans hnone
  · rcases h key form stored hknown hstored with ⟨found, hfound, -⟩ | ⟨-, hdefault⟩
    · cases hnone.symm.trans hfound
    · exact hdefault

/-- An array is loosened when its elements are. -/
theorem list_of_forall₂ {item : Form} {items changed : List Json}
    (h : List.Forall₂ (Loosens item) items changed) :
    Loosens (.list item) (.array items) (.array changed) := by
  obtain ⟨hlength, hitems⟩ := List.forall₂_iff_get.mp h
  refine .list hlength fun position stored found hstored hfound => ?_
  obtain ⟨hold, rfl⟩ := List.getElem?_eq_some_iff.mp hstored
  obtain ⟨hnew, rfl⟩ := List.getElem?_eq_some_iff.mp hfound
  exact hitems position hold hnew

/-- Members that are all kept are loosened with them. -/
theorem fields_refl
    (h : ∀ key form stored, (key, form) ∈ known → old.lookup key = some stored →
      Loosens form stored stored) : Loosens (.fields known) (.object old) (.object old) :=
  fields_of_keeps fun key form stored hknown hstored =>
    .inl ⟨stored, hstored, h key form stored hknown hstored⟩

/-- Elements that are all kept are loosened with them. -/
theorem list_refl {item : Form} {items : List Json}
    (h : ∀ stored ∈ items, Loosens item stored stored) :
    Loosens (.list item) (.array items) (.array items) := by
  refine .list rfl fun position stored new hstored hnew => ?_
  rw [hstored] at hnew
  cases hnew
  exact h stored (List.mem_of_getElem? hstored)

/-- Entries that are all kept are loosened with them. -/
theorem table_refl {item : Form} {entries : List (String × Json)}
    (h : ∀ entry ∈ entries, Loosens item entry.2 entry.2) :
    Loosens (.table item) (.object entries) (.object entries) := by
  refine .table rfl fun position stored new hstored hnew => ?_
  rw [hstored] at hnew
  cases hnew
  exact h stored (List.mem_of_getElem? hstored)

end Loosens

end Form

open Form

/-- A segment is read from its stored form. -/
theorem Segment.ofStored?_toStored (segment : Segment) :
    Segment.ofStored? segment.toStored = some segment := by
  cases segment with
  | key name => rfl
  | index position =>
    have hle : (0 : Int) ≤ position := Int.natCast_nonneg position
    rw [toStored, ofStored?, if_pos hle, Int.toNat_natCast]

/-- A pointer is read from its loosened form. -/
theorem Pointer.ofStored?_of_loosens {place : Pointer} {value : Json}
    (h : Loosens Form.pointer place.toStored value) : Pointer.ofStored? value = some place := by
  obtain ⟨members, hvalue, hkeeps⟩ := Loosens.exists_members? Form.pointer rfl h
  simp only [ofStored?, hvalue, Option.bind_eq_bind, Option.bind_some]
  refine Loosens.required?_eq_some (hkeeps "segments" (.list .value) _ (by simp) rfl)
    (by simp [Stored.defaults]) fun changed hchanged => ?_
  refine Loosens.array?_eq_some hchanged fun segment _ new hnew => ?_
  cases hnew
  exact segment.ofStored?_toStored

/-- The stored form of a pointer is one of its loosened forms. -/
theorem Pointer.loosens_toStored (place : Pointer) :
    Loosens Form.pointer place.toStored place.toStored := by
  refine Loosens.fields_refl fun key form stored hknown hstored => ?_
  obtain ⟨rfl, rfl⟩ : key = "segments" ∧ form = .list .value := by simpa using hknown
  cases hstored
  exact Loosens.list_refl fun segment _ => .value segment

/-- No two pointers have the same stored form. -/
theorem Pointer.toStored_injective : Function.Injective Pointer.toStored := by
  intro place place' heq
  have hplace := Pointer.ofStored?_of_loosens place.loosens_toStored
  have hplace' := Pointer.ofStored?_of_loosens place'.loosens_toStored
  rw [heq, hplace'] at hplace
  exact (Option.some.inj hplace).symm

/-- A place among the members of a loosened object is read as before. It is the root where it is
missing. -/
theorem Pointer.origin_eq_some {members : List (String × Json)} {place : Pointer}
    (h : Loosens.Keeps members "origin" Form.pointer place.toStored) :
    Stored.optional? members "origin" Pointer.root Pointer.ofStored? = some place := by
  refine Loosens.optional?_eq_some h (fun hdefault => ?_)
    fun changed => Pointer.ofStored?_of_loosens
  have hroot : place.toStored = Pointer.root.toStored := by simpa [Stored.defaults] using hdefault
  exact Pointer.toStored_injective hroot

/-- A limit is read from its loosened form. -/
theorem TermsLimit.ofStored?_of_loosens {limit : TermsLimit} {value : Json}
    (h : Loosens Form.limit limit.toStored value) : TermsLimit.ofStored? value = some limit := by
  cases limit with
  | unset =>
    cases h
    rfl
  | capped cap =>
    have hbounds : (0 : Int) ≤ cap.toNat ∧ (cap.toNat : Int) < UInt64.size := by
      have hlt := cap.toNat_lt_size
      omega
    cases h with
    | @variant _ _ form _ new hname hvalue =>
      have hform : form = .value := by simpa using hname
      subst hform
      cases hvalue
      simp only [ofStored?, if_pos hbounds, Int.toNat_natCast, UInt64.ofNat_toNat]

/-- The stored form of a limit is one of its loosened forms. -/
theorem TermsLimit.loosens_toStored (limit : TermsLimit) :
    Loosens Form.limit limit.toStored limit.toStored := by
  cases limit with
  | unset => exact .word _
  | capped cap => exact @Loosens.variant _ _ .value _ _ (by simp) (.value _)

/-- A clause is read from an object or a row that tells its kind in a word. -/
theorem Clause.ofStored?_of_members? {clause : Clause} {value body : Json} {kind : String}
    {members : List (String × Json)}
    (hstored : clause.toStored = .object [("clause", body), ("kind", .string kind)])
    (hvalue : Form.clause.members? value = some members)
    (hbody : members.lookup "clause" = some body)
    (hkind : members.lookup "kind" = some (.string kind)) :
    Clause.ofStored? value = some clause := by
  have hread : Clause.ofStored? (.object [("clause", body), ("kind", .string kind)]) =
      some clause := by
    rw [← hstored]
    cases clause <;> rfl
  cases value with
  | object written =>
    cases hvalue
    simp only [Clause.ofStored?, hbody, hkind]
    exact hread
  | array row =>
    match row, hvalue with
    | [], hvalue =>
      cases hvalue
      cases hbody
    | [_], hvalue =>
      cases hvalue
      cases hbody
    | [_, _], hvalue =>
      cases hvalue
      cases hbody
      cases hkind
      cases clause <;> cases hstored <;> rfl
    | _ :: _ :: _ :: _, hvalue => simp [Form.members?, Form.clause, Form.unfold] at hvalue
  | _ => cases hvalue

/-- A clause is read from its loosened form, whether or not its kind agrees with its body. -/
theorem Clause.ofStored?_of_loosens {clause : Clause} {value : Json}
    (h : Loosens Form.clause clause.toStored value) : Clause.ofStored? value = some clause := by
  obtain ⟨body, kind, hstored⟩ : ∃ body kind, clause.toStored =
      .object [("clause", body), ("kind", .string kind)] := by
    cases clause <;> exact ⟨_, _, rfl⟩
  rw [hstored] at h
  obtain ⟨members, hvalue, hkeeps⟩ := Loosens.exists_members? Form.clause rfl h
  obtain ⟨_, hbody, hsame⟩ := (hkeeps "clause" .value _ (by simp) rfl).exists_lookup
    (by simp [Stored.defaults])
  obtain ⟨_, hkind, hword⟩ :=
    (hkeeps "kind" (.choice [("scored", .value), ("filter", .value)]) _ (by simp)
      rfl).exists_lookup (by simp [Stored.defaults])
  cases hsame
  cases hword
  exact ofStored?_of_members? hstored hvalue hbody hkind

/-- The stored form of a clause is one of its loosened forms. -/
theorem Clause.loosens_toStored (clause : Clause) :
    Loosens Form.clause clause.toStored clause.toStored := by
  have hmembers (body : Json) (kind : String) :
      Loosens Form.clause (.object [("clause", body), ("kind", .string kind)])
        (.object [("clause", body), ("kind", .string kind)]) := by
    refine Loosens.fields_refl fun key form stored hknown hstored => ?_
    simp only [List.mem_cons, Prod.mk.injEq, List.not_mem_nil, or_false] at hknown
    rcases hknown with ⟨rfl, rfl⟩ | ⟨rfl, rfl⟩
    · cases hstored
      exact .word kind
    · cases hstored
      exact .value body
  cases clause with
  | scored body => exact hmembers body "scored"
  | filter body => exact hmembers body "filter"

/-- A text that may be missing is read from its stored form. -/
theorem Stored.text?_ofText? (text : Option String) : text? (ofText? text) = some text := by
  cases text <;> rfl

/-- An endpoint is read from its loosened form. -/
theorem Endpoint.ofStored?_of_loosens {endpoint : Endpoint} {value : Json}
    (h : Loosens Form.endpoint endpoint.toStored value) :
    Endpoint.ofStored? value = some endpoint := by
  obtain ⟨members, hvalue, hkeeps⟩ := Loosens.exists_members? Form.endpoint rfl h
  have hpath : Stored.required? members "path" Json.string? = some endpoint.path := by
    refine Loosens.required?_eq_some (hkeeps "path" .value _ (by simp) rfl)
      (by simp [Stored.defaults]) fun changed hchanged => ?_
    cases hchanged
    rfl
  have hnames (field : String) (names : List String)
      (hfield : Loosens.Keeps members field (.list .value) (.array (names.map .string))) :
      Stored.required? members field (Stored.array? Json.string?) = some names := by
    refine Loosens.required?_eq_some hfield (by simp [Stored.defaults, Pointer.toStored])
      fun changed hchanged => ?_
    refine Loosens.array?_eq_some hchanged fun name _ new hnew => ?_
    cases hnew
    rfl
  have hindices := hnames "indices" endpoint.indices (hkeeps _ _ _ (by simp) rfl)
  have htypes := hnames "types" endpoint.types (hkeeps _ _ _ (by simp) rfl)
  have htext (field : String) (text : Option String)
      (hfield : Loosens.Keeps members field .value (Stored.ofText? text))
      (hdefault : (field, Stored.ofText? text) ∈ Stored.defaults → text = none) :
      Stored.optional? members field none Stored.text? = some text := by
    refine Loosens.optional?_eq_some hfield hdefault fun changed hchanged => ?_
    cases hchanged
    exact Stored.text?_ofText? text
  have hnone (field : String) (text : Option String)
      (hdefault : (field, Stored.ofText? text) ∈ Stored.defaults) : text = none := by
    cases text with
    | none => rfl
    | some text => simp [Stored.defaults, Stored.ofText?, Pointer.toStored] at hdefault
  have horder := htext "orderBy" endpoint.orderBy (hkeeps _ _ _ (by simp) rfl) (hnone _ _)
  have hencoding := htext "termsEncoding" endpoint.encoding (hkeeps _ _ _ (by simp) rfl) (hnone _ _)
  have hlimit : Stored.required? members "maxTermsPerShard" TermsLimit.ofStored? =
      some endpoint.maxTerms := by
    refine Loosens.required?_eq_some (hkeeps "maxTermsPerShard" Form.limit _ (by simp) rfl)
      (by simp [Stored.defaults]) fun changed hchanged => ?_
    exact TermsLimit.ofStored?_of_loosens hchanged
  have hqueries : Stored.required? members "queries" (Stored.array? Clause.ofStored?) =
      some endpoint.queries := by
    refine Loosens.required?_eq_some (hkeeps "queries" (.list Form.clause) _ (by simp) rfl)
      (by simp [Stored.defaults]) fun changed hchanged => ?_
    exact Loosens.array?_eq_some hchanged fun clause _ new => Clause.ofStored?_of_loosens
  simp only [ofStored?, hvalue, Option.bind_eq_bind, Option.bind_some, hpath, hindices, htypes,
    horder, hlimit, hencoding, hqueries]
  rfl

/-- The stored form of an endpoint is one of its loosened forms. -/
theorem Endpoint.loosens_toStored (endpoint : Endpoint) :
    Loosens Form.endpoint endpoint.toStored endpoint.toStored := by
  refine Loosens.fields_refl fun key form stored hknown hstored => ?_
  simp only [List.mem_cons, Prod.mk.injEq, List.not_mem_nil, or_false] at hknown
  rcases hknown with ⟨rfl, rfl⟩ | ⟨rfl, rfl⟩ | ⟨rfl, rfl⟩ | ⟨rfl, rfl⟩ | ⟨rfl, rfl⟩ |
    ⟨rfl, rfl⟩ | ⟨rfl, rfl⟩ <;> cases hstored
  case inr.inl | inr.inr.inl => exact Loosens.list_refl fun name _ => .value name
  case inr.inr.inr.inr.inl => exact endpoint.maxTerms.loosens_toStored
  case inr.inr.inr.inr.inr.inr =>
    refine Loosens.list_refl fun stored hstored => ?_
    obtain ⟨clause, -, rfl⟩ := List.mem_map.mp hstored
    exact clause.loosens_toStored
  all_goals exact .value _

end Semijoin
