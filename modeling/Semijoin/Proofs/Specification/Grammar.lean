import Mathlib.Algebra.Ring.Int.Defs
import Semijoin.Outcome
import Semijoin.Specification

/-!
# The grammar of specifications

The values that are specifications are told here without reading them: which members their objects
must have, which they may have, and what stands under each. Fields and endpoints are read exactly
where they have the form that is told.
-/

namespace Semijoin

namespace Json

/-- A text. -/
def IsText (value : Json) : Prop := ∃ text, value = .string text

/-- A text or an array of texts. -/
def IsTexts (value : Json) : Prop :=
  value.IsText ∨ ∃ items, value = .array items ∧ ∀ item ∈ items, item.IsText

/-- A truth value. -/
def IsFlag (value : Json) : Prop := ∃ flag, value = .bool flag

/-- An integer that fits into 64 bits, with a sign or without one. -/
def IsLimit (value : Json) : Prop :=
  ∃ limit : Int, value = .number (.integer limit) ∧ -2 ^ 63 ≤ limit ∧ limit < 2 ^ 64

/-- An object. -/
def IsObject (value : Json) : Prop := ∃ members, value = .object members

/-- An array of objects. -/
def IsClauses (value : Json) : Prop :=
  ∃ items, value = .array items ∧ ∀ item ∈ items, item.IsObject

/-- An object whose members are null or arrays of objects. -/
def IsClausesByIndex (value : Json) : Prop :=
  ∃ members, value = .object members ∧
    ∀ member ∈ members, member.2 = .null ∨ member.2.IsClauses

end Json

/-- A field that is absent, null or of some form. -/
def Field.Optional (form : Json → Prop) (members : List (String × Json)) (field : String) : Prop :=
  ∀ value, members.lookup field = some value → value = .null ∨ form value

/-- The members of an endpoint. -/
structure Endpoint.Written (members : List (String × Json)) : Prop where
  known : ∀ member ∈ members, member.1 ∈ Endpoint.fields
  path : ∃ path, members.lookup "path" = some (.string path) ∧ path ≠ ""
  indices : Field.Optional Json.IsTexts members "indices"
  types : Field.Optional Json.IsTexts members "types"
  orderBy : Field.Optional Json.IsText members "orderBy"
  maxTerms : Field.Optional Json.IsLimit members "maxTermsPerShard"
  encoding : Field.Optional Json.IsText members "termsEncoding"
  queries : Field.Optional Json.IsClauses members "queries"

namespace Json

/-- An object with the members of an endpoint. -/
def IsEndpoint (value : Json) : Prop :=
  ∃ members, value = .object members ∧ Endpoint.Written members

/-- The index that an endpoint names first. -/
def firstIndex? (endpoint : Json) : Option String :=
  match endpoint.member? "indices" with
  | some (.string index) | some (.array (.string index :: _)) => some index
  | _ => none

/-- The endpoint has no clauses. -/
def WithoutClauses (endpoint : Json) : Prop :=
  ∀ value, endpoint.member? "queries" = some value → value = .null ∨ value = .array []

/-- A relation between two endpoints: an array of the two, or an object that holds such an array and
may tell whether the relation is negated. -/
inductive IsRelation (first second : Json) : Json → Prop
  | pair (hfirst : first.IsEndpoint) (hsecond : second.IsEndpoint) :
    IsRelation first second (.array [first, second])
  | object {members : List (String × Json)}
    (hrelation : members.lookup "relation" = some (.array [first, second]))
    (hfirst : first.IsEndpoint) (hsecond : second.IsEndpoint)
    (hnegate : Field.Optional IsFlag members "negate") :
    IsRelation first second (.object members)

/-- The endpoints of a relation name the same index first. -/
def IsLoop (first second : Json) : Prop :=
  ∃ index, first.firstIndex? = some index ∧ second.firstIndex? = some index

/-- An object with a focus, relations that are no loops, and clauses by index if there are any. -/
inductive IsGraph : Json → Prop
  | object {members : List (String × Json)} {focus : String} {relations : List Json}
    (hfocus : members.lookup "focus" = some (.string focus))
    (hrelations : members.lookup "relations" = some (.array relations))
    (hall : ∀ relation ∈ relations, ∃ first second,
      IsRelation first second relation ∧ ¬ IsLoop first second)
    (hqueries : Field.Optional IsClausesByIndex members "queries") : IsGraph (.object members)

/-- A step of a chain that relates two endpoints. -/
inductive IsStep (joined filtered : Json) : Json → Prop
  | object {members : List (String × Json)} (hgroup : members.lookup "group" = none)
    (hrelation : members.lookup "relation" = some (.array [joined, filtered]))
    (hjoined : joined.IsEndpoint) (hfiltered : filtered.IsEndpoint)
    (hnegate : Field.Optional IsFlag members "negate") : IsStep joined filtered (.object members)

/-- Steps that relate two endpoints each, and no clauses at the far end of the last one. -/
inductive AreSteps : List Json → Prop
  | last {step joined filtered : Json} (hstep : IsStep joined filtered step)
    (hclauses : filtered.WithoutClauses) : AreSteps [step]
  | cons {step joined filtered : Json} {rest : List Json} (hstep : IsStep joined filtered step)
    (hrest : AreSteps rest) : AreSteps (step :: rest)

/-- Steps, which may follow a group of branches. The branches are chains themselves. -/
inductive IsChain : Json → Prop
  | steps {steps : List Json} (hsteps : AreSteps steps) : IsChain (.array steps)
  | grouped {members : List (String × Json)} {branches rest : List Json}
    (hgroup : members.lookup "group" = some (.array branches)) (hbranches : branches ≠ [])
    (hall : ∀ branch ∈ branches, IsChain branch) (hrest : AreSteps rest) :
    IsChain (.array (.object members :: rest))

end Json

/-- The form of what stands under a label. -/
def Label.Form : Label → Json → Prop
  | .joinSet => Json.IsGraph
  | .joinSequence => Json.IsChain

/-- Two steps succeed together exactly when the first does and what is needed for the second is
given. -/
theorem exists_bind_iff {ε α β : Type} {first : Except ε α} {next : α → Except ε β}
    {condition : Prop}
    (h : ∀ value, first = .ok value → ((∃ result, next value = .ok result) ↔ condition)) :
    (∃ result, first >>= next = .ok result) ↔ (∃ value, first = .ok value) ∧ condition := by
  constructor
  · rintro ⟨result, hresult⟩
    obtain ⟨value, hvalue, hnext⟩ := bind_eq_ok hresult
    exact ⟨⟨value, hvalue⟩, (h value hvalue).mp ⟨result, hnext⟩⟩
  · rintro ⟨⟨value, hvalue⟩, hcondition⟩
    obtain ⟨result, hresult⟩ := (h value hvalue).mpr hcondition
    exact ⟨result, by rw [hvalue]; exact hresult⟩

/-- The second of two steps that succeeds in any case does not matter. -/
theorem exists_bind_iff_of_ok {ε α β : Type} {first : Except ε α} {next : α → Except ε β}
    (h : ∀ value, ∃ result, next value = .ok result) :
    (∃ result, first >>= next = .ok result) ↔ ∃ value, first = .ok value :=
  (exists_bind_iff fun value _ => iff_true_intro (h value)).trans (and_iff_left trivial)

/-- Elements are gone through exactly when each of them has the form that is needed. -/
theorem exists_mapM_iff {ε α β : Type} {f : α → Except ε β} {form : α → Prop}
    (h : ∀ value, (∃ result, f value = .ok result) ↔ form value) {values : List α} :
    (∃ results, values.mapM f = .ok results) ↔ ∀ value ∈ values, form value := by
  induction values with
  | nil => exact iff_of_true ⟨[], rfl⟩ (List.forall_mem_nil _)
  | cons value rest ih =>
    rw [List.forall_mem_cons, ← h, ← ih, List.mapM_cons]
    exact exists_bind_iff fun first _ => exists_bind_iff_of_ok fun others => ⟨_, rfl⟩

namespace Field

variable {members : List (String × Json)} {field : String} {place : Pointer}

/-- A field is optional exactly when what is found in it, if anything, has its form. -/
theorem optional_iff {form : Json → Prop} :
    Optional form members field ↔ ∀ value, find? members field = some value → form value := by
  unfold Optional find?
  cases hlookup : members.lookup field with
  | none => exact iff_of_true nofun nofun
  | some value =>
    cases value with
    | null => exact iff_of_true (fun _ h => .inl (Option.some.inj h).symm) nofun
    | _ =>
      simp only [Option.some.injEq, forall_eq', reduceCtorEq, false_or]

section Items

variable {α : Type} {read : Pointer → Json → Except Fault α} {position : Nat} {values : List Json}

/-- Elements are read exactly when each of them has the form that is read. -/
theorem exists_items_iff {form : Json → Prop}
    (h : ∀ place value, (∃ result, read place value = .ok result) ↔ form value) :
    (∃ results, items read place position values = .ok results) ↔ ∀ value ∈ values, form value := by
  induction values generalizing position with
  | nil => exact iff_of_true ⟨[], rfl⟩ (List.forall_mem_nil _)
  | cons value rest ih =>
    rw [List.forall_mem_cons, ← h (place.index position), ← @ih (position + 1)]
    exact exists_bind_iff fun first _ => exists_bind_iff_of_ok fun others => ⟨_, rfl⟩

/-- Elements are read together if each of them is read, wherever it stands. What holds of the
results one by one holds of them all. -/
theorem exists_items {property : α → Prop}
    (h : ∀ value ∈ values, ∀ place, ∃ result, read place value = .ok result ∧ property result) :
    ∃ results, items read place position values = .ok results ∧
      ∀ result ∈ results, property result := by
  induction values generalizing position with
  | nil => exact ⟨[], rfl, List.forall_mem_nil _⟩
  | cons value rest ih =>
    obtain ⟨hvalue, hrest⟩ := List.forall_mem_cons.mp h
    obtain ⟨first, hfirst, hproperty⟩ := hvalue (place.index position)
    obtain ⟨others, hothers, hall⟩ := @ih (position + 1) hrest
    refine ⟨first :: others, ?_, List.forall_mem_cons.mpr ⟨hproperty, hall⟩⟩
    rw [items, hfirst]
    change (items read place (position + 1) rest >>= _) = _
    rw [hothers]
    rfl

/-- Elements that are read together are read one by one. What holds of all results holds of each. -/
theorem exists_of_items {property : α → Prop} {results : List α}
    (h : items read place position values = .ok results)
    (hall : ∀ result ∈ results, property result) :
    ∀ value ∈ values, ∃ place result, read place value = .ok result ∧ property result := by
  induction values generalizing position results with
  | nil => exact List.forall_mem_nil _
  | cons value rest ih =>
    obtain ⟨first, hfirst, h⟩ := bind_eq_ok h
    obtain ⟨others, hothers, h⟩ := bind_eq_ok h
    cases h
    obtain ⟨hproperty, hrest⟩ := List.forall_mem_cons.mp hall
    exact List.forall_mem_cons.mpr ⟨⟨_, first, hfirst, hproperty⟩, ih hothers hrest⟩

/-- No elements are read as none only. -/
theorem eq_nil_of_items (h : items read place position values = .ok []) : values = [] := by
  cases values with
  | nil => rfl
  | cons value rest =>
    obtain ⟨_, -, h⟩ := bind_eq_ok h
    obtain ⟨_, -, h⟩ := bind_eq_ok h
    cases h

end Items

/-- An element of a list of texts is read exactly when it is a text. -/
theorem exists_entry_iff (place : Pointer) (value : Json) :
    (∃ text, entry field place value = .ok text) ↔ value.IsText := by
  cases value with
  | string text => exact iff_of_true ⟨text, rfl⟩ ⟨text, rfl⟩
  | _ => exact iff_of_false nofun nofun

/-- A text is read exactly where it is optional. -/
theorem exists_text?_iff :
    (∃ text, text? members field place = .ok text) ↔ Optional Json.IsText members field := by
  rw [optional_iff, text?]
  cases find? members field with
  | none => exact iff_of_true ⟨_, rfl⟩ nofun
  | some value =>
    simp only [Option.some.injEq, forall_eq']
    cases value with
    | string text => exact iff_of_true ⟨_, rfl⟩ ⟨text, rfl⟩
    | _ => exact iff_of_false nofun nofun

/-- Texts are read exactly where one or several are optional. -/
theorem exists_texts_iff :
    (∃ texts, Field.texts members field place = .ok texts) ↔
      Optional Json.IsTexts members field := by
  rw [optional_iff, Field.texts]
  cases find? members field with
  | none => exact iff_of_true ⟨_, rfl⟩ nofun
  | some value =>
    simp only [Option.some.injEq, forall_eq']
    cases value with
    | string text => exact iff_of_true ⟨_, rfl⟩ (.inl ⟨text, rfl⟩)
    | array values =>
      refine (exists_items_iff exists_entry_iff).trans ?_
      exact ⟨fun hall => .inr ⟨values, rfl, hall⟩, by rintro (⟨_, ⟨⟩⟩ | ⟨_, ⟨⟩, hall⟩); exact hall⟩
    | _ => exact iff_of_false nofun (by rintro (⟨_, ⟨⟩⟩ | ⟨_, ⟨⟩, _⟩))

/-- The first of some texts is the only one or the first in an array. -/
theorem head?_of_texts {texts : List String} (h : Field.texts members field place = .ok texts) :
    texts.head? = match members.lookup field with
      | some (.string text) | some (.array (.string text :: _)) => some text
      | _ => none := by
  unfold Field.texts find? at h
  cases hlookup : members.lookup field with
  | none =>
    rw [hlookup] at h
    cases h
    rfl
  | some value =>
    rw [hlookup] at h
    cases value with
    | null | string _ =>
      cases h
      rfl
    | array values =>
      cases values with
      | nil =>
        cases h
        rfl
      | cons first rest =>
        obtain ⟨text, htext, h⟩ := bind_eq_ok h
        obtain ⟨others, -, h⟩ := bind_eq_ok h
        cases h
        cases first with
        | string _ =>
          cases htext
          rfl
        | _ => cases htext
    | _ => cases h

/-- A truth value is read exactly where it is optional. -/
theorem exists_flag_iff :
    (∃ flag, Field.flag members field place = .ok flag) ↔ Optional Json.IsFlag members field := by
  rw [optional_iff, Field.flag]
  cases find? members field with
  | none => exact iff_of_true ⟨_, rfl⟩ nofun
  | some value =>
    simp only [Option.some.injEq, forall_eq']
    cases value with
    | bool flag => exact iff_of_true ⟨_, rfl⟩ ⟨flag, rfl⟩
    | _ => exact iff_of_false nofun nofun

end Field

/-- Integers stand for a limit exactly when they fit into 64 bits, with a sign or without one. -/
theorem TermsLimit.isSome_ofInt?_iff {raw : Int} :
    (ofInt? raw).isSome ↔ -2 ^ 63 ≤ raw ∧ raw < 2 ^ 64 := by
  unfold ofInt?
  simp only [UInt64.size]
  split
  · split <;> simp <;> omega
  · split <;> simp <;> omega

/-- A limit is read exactly where an integer that fits is optional. -/
theorem TermsLimit.exists_read_iff {members : List (String × Json)} {field : String}
    {place : Pointer} :
    (∃ limit, TermsLimit.read members field place = .ok limit) ↔
      Field.Optional Json.IsLimit members field := by
  rw [Field.optional_iff, TermsLimit.read]
  cases Field.find? members field with
  | none => exact iff_of_true ⟨_, rfl⟩ nofun
  | some value =>
    simp only [Option.some.injEq, forall_eq']
    cases value with
    | number number =>
      cases number with
      | integer raw =>
        have hlimit : Json.IsLimit (.number (.integer raw)) ↔ (ofInt? raw).isSome := by
          rw [isSome_ofInt?_iff]
          constructor
          · rintro ⟨_, ⟨⟩, hrange⟩
            exact hrange
          · exact fun hrange => ⟨raw, rfl, hrange⟩
        rw [hlimit]
        cases hraw : ofInt? raw with
        | none =>
          simp only [hraw]
          exact iff_of_false nofun nofun
        | some limit =>
          simp only [hraw]
          exact iff_of_true ⟨limit, rfl⟩ rfl
      | float bits => exact iff_of_false nofun nofun
    | _ => exact iff_of_false nofun nofun

namespace Clause

/-- A clause is read exactly from an object. -/
theorem exists_read_iff (place : Pointer) (value : Json) :
    (∃ clause, read place value = .ok clause) ↔ value.IsObject := by
  cases value with
  | object members => exact iff_of_true ⟨_, rfl⟩ ⟨members, rfl⟩
  | _ => exact iff_of_false nofun nofun

/-- Clauses are read exactly from null and from an array of objects. -/
theorem exists_readAll_iff {place : Pointer} {value : Json} :
    (∃ clauses, readAll place value = .ok clauses) ↔ value = .null ∨ value.IsClauses := by
  cases value with
  | null => exact iff_of_true ⟨_, rfl⟩ (.inl rfl)
  | array values =>
    refine (Field.exists_items_iff exists_read_iff).trans ?_
    exact ⟨fun hall => .inr ⟨values, rfl, hall⟩, by rintro (⟨⟨⟩⟩ | ⟨_, ⟨⟩, hall⟩); exact hall⟩
  | _ => exact iff_of_false nofun (by rintro (⟨⟨⟩⟩ | ⟨_, ⟨⟩, _⟩))

/-- The clauses of a field are read exactly where they are optional. -/
theorem exists_readAll_getD_iff {members : List (String × Json)} {field : String}
    {place : Pointer} :
    (∃ clauses, readAll place ((members.lookup field).getD .null) = .ok clauses) ↔
      Field.Optional Json.IsClauses members field := by
  rw [exists_readAll_iff, Field.Optional]
  cases members.lookup field with
  | none => exact iff_of_true (.inl rfl) nofun
  | some value => simp

/-- No clauses are read from null and from an empty array only. -/
theorem readAll_eq_nil {place : Pointer} {value : Json} :
    readAll place value = .ok [] ↔ value = .null ∨ value = .array [] := by
  cases value with
  | null => exact iff_of_true rfl (.inl rfl)
  | array values =>
    cases values with
    | nil => exact iff_of_true rfl (.inr rfl)
    | cons first rest =>
      refine iff_of_false (fun h => ?_) (by rintro (⟨⟨⟩⟩ | ⟨⟨⟩⟩))
      cases Field.eq_nil_of_items h
  | _ => exact iff_of_false nofun (by rintro (⟨⟨⟩⟩ | ⟨⟨⟩⟩))

end Clause

namespace Endpoint

/-- A path is read exactly where a text stands that is not empty. -/
theorem exists_readPath_iff {members : List (String × Json)} {place : Pointer} :
    (∃ path, readPath members place = .ok path) ↔
      ∃ path, members.lookup "path" = some (.string path) ∧ path ≠ "" := by
  unfold readPath Field.text? Field.find?
  cases members.lookup "path" with
  | none => exact iff_of_false nofun nofun
  | some value =>
    cases value with
    | string path =>
      by_cases hpath : path = ""
      · subst hpath
        exact iff_of_false nofun (by rintro ⟨_, ⟨⟩, hne⟩; exact hne rfl)
      · have hempty : path.isEmpty = false := by simpa using hpath
        simp only [hempty]
        exact iff_of_true ⟨path, rfl⟩ ⟨path, rfl, hpath⟩
    | _ => exact iff_of_false nofun nofun

/-- An endpoint is read field by field, once its keys are known. -/
theorem read_eq_ok_iff {place : Pointer} {value : Json} {endpoint : Endpoint} :
    read place value = .ok endpoint ↔ ∃ members, value = .object members ∧
      (∀ member ∈ members, member.1 ∈ fields) ∧
      readPath members place = .ok endpoint.path ∧
      Field.texts members "indices" place = .ok endpoint.indices ∧
      Field.texts members "types" place = .ok endpoint.types ∧
      Field.text? members "orderBy" place = .ok endpoint.orderBy ∧
      TermsLimit.read members "maxTermsPerShard" place = .ok endpoint.maxTerms ∧
      Field.text? members "termsEncoding" place = .ok endpoint.encoding ∧
      Clause.readAll (place.key "queries") ((members.lookup "queries").getD .null) =
        .ok endpoint.queries := by
  constructor
  · intro h
    unfold read at h
    split at h
    · rename_i members
      split at h
      · cases h
      · rename_i hunknown
        obtain ⟨path, hpath, h⟩ := bind_eq_ok h
        obtain ⟨indices, hindices, h⟩ := bind_eq_ok h
        obtain ⟨types, htypes, h⟩ := bind_eq_ok h
        obtain ⟨orderBy, horderBy, h⟩ := bind_eq_ok h
        obtain ⟨maxTerms, hmaxTerms, h⟩ := bind_eq_ok h
        obtain ⟨encoding, hencoding, h⟩ := bind_eq_ok h
        obtain ⟨queries, hqueries, h⟩ := bind_eq_ok h
        cases h
        refine ⟨members, rfl, fun member hmember => ?_, hpath, hindices, htypes, horderBy,
          hmaxTerms, hencoding, hqueries⟩
        have hnone := Option.eq_none_iff_forall_ne_some.mpr fun found : String × Json =>
          hunknown found.1 found.2
        simpa using List.find?_eq_none.mp hnone member hmember
    · cases h
  · rintro ⟨members, rfl, hknown, hpath, hindices, htypes, horderBy, hmaxTerms, hencoding, hqueries⟩
    unfold read
    dsimp only
    split
    · rename_i field found hfind
      have hunknown : field ∉ fields := by simpa using List.find?_some hfind
      exact absurd (hknown _ (List.mem_of_find?_eq_some hfind)) hunknown
    · simp only [hpath, hindices, htypes, horderBy, hmaxTerms, hencoding, hqueries]
      rfl

/-- An endpoint is read exactly from an object with its members. -/
theorem exists_read_iff (place : Pointer) (value : Json) :
    (∃ endpoint, read place value = .ok endpoint) ↔ value.IsEndpoint := by
  constructor
  · rintro ⟨endpoint, h⟩
    obtain ⟨members, rfl, hknown, hpath, hindices, htypes, horderBy, hmaxTerms, hencoding,
      hqueries⟩ := read_eq_ok_iff.mp h
    exact ⟨members, rfl, hknown, exists_readPath_iff.mp ⟨_, hpath⟩,
      Field.exists_texts_iff.mp ⟨_, hindices⟩, Field.exists_texts_iff.mp ⟨_, htypes⟩,
      Field.exists_text?_iff.mp ⟨_, horderBy⟩, TermsLimit.exists_read_iff.mp ⟨_, hmaxTerms⟩,
      Field.exists_text?_iff.mp ⟨_, hencoding⟩, Clause.exists_readAll_getD_iff.mp ⟨_, hqueries⟩⟩
  · rintro ⟨members, rfl, hmembers⟩
    obtain ⟨path, hpath⟩ := exists_readPath_iff.mpr hmembers.path
    obtain ⟨indices, hindices⟩ := Field.exists_texts_iff.mpr hmembers.indices
    obtain ⟨types, htypes⟩ := Field.exists_texts_iff.mpr hmembers.types
    obtain ⟨orderBy, horderBy⟩ := Field.exists_text?_iff.mpr hmembers.orderBy
    obtain ⟨maxTerms, hmaxTerms⟩ := TermsLimit.exists_read_iff.mpr hmembers.maxTerms
    obtain ⟨encoding, hencoding⟩ := Field.exists_text?_iff.mpr hmembers.encoding
    obtain ⟨queries, hqueries⟩ := Clause.exists_readAll_getD_iff.mpr hmembers.queries
    exact ⟨⟨⟨path, indices, types, orderBy, maxTerms, encoding⟩, queries⟩,
      read_eq_ok_iff.mpr ⟨members, rfl, hmembers.known, hpath, hindices, htypes, horderBy,
        hmaxTerms, hencoding, hqueries⟩⟩

/-- An endpoint is read from a value, wherever this stands. -/
def Reads (value : Json) (endpoint : Endpoint) : Prop := ∃ place, read place value = .ok endpoint

/-- What an endpoint is read from has the form of one. -/
theorem Reads.isEndpoint {value : Json} {endpoint : Endpoint} (h : Reads value endpoint) :
    value.IsEndpoint := by
  obtain ⟨place, h⟩ := h
  exact (exists_read_iff place value).mp ⟨endpoint, h⟩

/-- An endpoint is identified by the index that its text names first. -/
theorem Reads.index? {value : Json} {endpoint : Endpoint} (h : Reads value endpoint) :
    endpoint.index? = value.firstIndex? := by
  obtain ⟨place, h⟩ := h
  obtain ⟨members, rfl, -, -, hindices, -⟩ := read_eq_ok_iff.mp h
  rw [Endpoint.index?, Field.head?_of_texts hindices]
  rfl

/-- An endpoint has no clauses exactly when its text has none. -/
theorem Reads.queries_eq_nil_iff {value : Json} {endpoint : Endpoint} (h : Reads value endpoint) :
    endpoint.queries = [] ↔ value.WithoutClauses := by
  obtain ⟨place, h⟩ := h
  obtain ⟨members, rfl, -, -, -, -, -, -, -, hqueries⟩ := read_eq_ok_iff.mp h
  have hnil : endpoint.queries = [] ↔
      Clause.readAll (place.key "queries") ((members.lookup "queries").getD .null) = .ok [] := by
    rw [hqueries, Except.ok.injEq]
  rw [hnil, Clause.readAll_eq_nil]
  unfold Json.WithoutClauses Json.member? Json.members
  cases members.lookup "queries" with
  | none => exact iff_of_true (.inl rfl) nofun
  | some value => simp

/-- A pair is read from an array of two endpoints. -/
theorem exists_of_readPair {place : Pointer} {value : Json} {pair : Endpoint × Endpoint}
    (h : readPair place value = .ok pair) :
    ∃ first second, value = .array [first, second] ∧ Reads first pair.1 ∧ Reads second pair.2 := by
  unfold readPair at h
  split at h
  · obtain ⟨first, hfirst, h⟩ := bind_eq_ok h
    obtain ⟨second, hsecond, h⟩ := bind_eq_ok h
    cases h
    exact ⟨_, _, rfl, ⟨_, hfirst⟩, ⟨_, hsecond⟩⟩
  · cases h

/-- An array of two endpoints is read as a pair. -/
theorem exists_readPair {first second : Json} (hfirst : first.IsEndpoint)
    (hsecond : second.IsEndpoint) (place : Pointer) :
    ∃ pair, readPair place (.array [first, second]) = .ok pair ∧
      Reads first pair.1 ∧ Reads second pair.2 := by
  obtain ⟨one, hone⟩ := (exists_read_iff (place.index 0) first).mpr hfirst
  obtain ⟨other, hother⟩ := (exists_read_iff (place.index 1) second).mpr hsecond
  refine ⟨(one, other), ?_, ⟨_, hone⟩, ⟨_, hother⟩⟩
  rw [readPair, hone]
  change (read (place.index 1) second >>= _) = _
  rw [hother]
  rfl

end Endpoint

end Semijoin
