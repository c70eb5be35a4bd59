import Semijoin.Proofs.Join.Building
import Semijoin.Proofs.Join.Carrying
import Semijoin.Proofs.Specification.Grammar

/-!
# What a join says of its target

The body of a join has a member for each setting that its target has, and its query. Without the
query it is an endpoint again: the one that the join was built for, less the clauses written at it.
So every setting of the endpoint is emitted as it was written, once single texts have become lists
of one, and nothing else is emitted.
-/

namespace Semijoin

namespace Json

/-- An object without the members under a key. -/
def removeMember (key : String) : Json → Json
  | .object members => .object (members.filter fun member => member.1 ≠ key)
  | value => value

/-- The first member of an object is found under its key, and the others under other keys. -/
theorem lookup_cons_eq_ite {α : Type} (key field : String) (value : α)
    (rest : List (String × α)) :
    ((key, value) :: rest).lookup field =
      if field = key then some value else rest.lookup field := by
  rw [List.lookup_cons]
  by_cases h : field = key
  · rw [if_pos h, h, beq_self_eq_true]
  · rw [if_neg h, beq_false_of_ne h]

/-- The other members of an object stay when those under a key are removed. -/
theorem member?_removeMember (key field : String) (value : Json) :
    (value.removeMember key).member? field =
      if field = key then none else value.member? field := by
  cases value with
  | object members =>
    simp only [removeMember, member?, Json.members]
    induction members with
    | nil => simp
    | cons member rest ih =>
      obtain ⟨name, value⟩ := member
      by_cases hname : name = key
      · rw [List.filter_cons_of_neg (by simpa using hname), ih, lookup_cons_eq_ite]
        split
        · rfl
        · rename_i hfield
          rw [if_neg (fun heq => hfield (heq.trans hname))]
      · rw [List.filter_cons_of_pos (by simpa using hname), lookup_cons_eq_ite,
          lookup_cons_eq_ite, ih]
        split
        · rename_i hfield
          rw [if_neg (fun heq => hname (hfield.symm.trans heq))]
        · rfl
  | null | bool _ | number _ | string _ | array _ => simp [removeMember, member?, Json.members]

end Json

namespace Target

/-- What a target has under a field of the body of its join. -/
def written? (target : Target) : String → Option Json
  | "indices" => some (.ofTexts target.indices)
  | "maxTermsPerShard" => target.maxTerms.cap?.map fun cap => .number (.integer cap.toNat)
  | "orderBy" => target.orderBy.map .string
  | "path" => some (.string target.path)
  | "termsEncoding" => target.encoding.map .string
  | "types" => if target.types.isEmpty then none else some (.ofTexts target.types)
  | _ => none

/-- A setting is found under its own key alone. -/
theorem lookup_optional {α : Type} (setting : Option α) (value : α → Json) (key field : String) :
    (setting.map fun given => (key, value given)).toList.lookup field =
      if field = key then setting.map value else none := by
  cases setting with
  | none => simp
  | some given => exact Json.lookup_cons_eq_ite key field (value given) []

/-- The body of a join has the settings of its target and the query. -/
theorem member?_toJson (target : Target) (query : Json) (field : String) :
    (target.toJson query).member? field =
      if field = "query" then some query else target.written? field := by
  have htypes : (if target.types.isEmpty then [] else [("types", Json.ofTexts target.types)]).lookup
      field = if field = "types" ∧ ¬ target.types.isEmpty then some (.ofTexts target.types)
        else none := by
    split <;> simp [Json.lookup_cons_eq_ite, *]
  simp only [toJson, Json.member?, Json.members, List.lookup_append, lookup_optional, htypes,
    Json.lookup_cons_eq_ite, List.lookup_nil]
  fun_cases written? target field <;> simp_all

/-- The body of a join without the query has the settings of its target. -/
theorem member?_withoutQuery (target : Target) (query : Json) (field : String) :
    ((target.toJson query).removeMember "query").member? field = target.written? field := by
  rw [Json.member?_removeMember, member?_toJson]
  split
  · rename_i hfield
    rw [hfield]
    rfl
  · rfl

end Target

namespace Json

/-- The list that one or several written texts are emitted as. An empty one is not emitted. -/
def emittedTexts? : Json → Option Json
  | .string text => some (.ofTexts [text])
  | .array values => if values.isEmpty then none else some (.array values)
  | _ => none

/-- The text that a written one is emitted as. An empty one is not emitted. -/
def emittedText? : Json → Option Json
  | .string text => if text.isEmpty then none else some (.string text)
  | _ => none

/-- The limit that a written one is emitted as. A negative one is not emitted. -/
def emittedLimit? : Json → Option Json
  | .number (.integer raw) => if 0 ≤ raw then some (.number (.integer raw)) else none
  | _ => none

/-- A limit is emitted exactly when it is not negative, and as it was written. -/
theorem emittedLimit?_eq_some_iff {written emitted : Json} :
    written.emittedLimit? = some emitted ↔
      ∃ cap : Nat, written = .number (.integer cap) ∧ emitted = .number (.integer cap) := by
  constructor
  · intro h
    unfold emittedLimit? at h
    split at h
    · rename_i raw
      split at h
      · rename_i hnonneg
        cases h
        exact ⟨raw.toNat, by rw [Int.toNat_of_nonneg hnonneg], by rw [Int.toNat_of_nonneg hnonneg]⟩
      · cases h
    · cases h
  · rintro ⟨cap, rfl, rfl⟩
    rw [emittedLimit?, if_pos (Int.natCast_nonneg cap)]

end Json

section Reading

variable {members : List (String × Json)} {field : String} {place : Pointer}

namespace Field

/-- What is found in a field is found under its key, unless it is null. -/
theorem bind_find? {form : Json → Option Json} (hnull : form .null = none) :
    (find? members field).bind form = (members.lookup field).bind form := by
  unfold find?
  split
  · rename_i hlookup
    rw [hlookup]
    exact hnull.symm
  · rfl

/-- An array of texts is read as these texts. -/
theorem items_entry_map (position : Nat) (texts : List String) :
    items (entry field) place position (texts.map .string) = .ok texts := by
  induction texts generalizing position with
  | nil => rfl
  | cons text rest ih =>
    rw [List.map_cons, items, ih (position + 1)]
    rfl

/-- What is read as texts is the array of these texts. -/
theorem eq_map_of_items_entry {position : Nat} {values : List Json} {texts : List String}
    (h : items (entry field) place position values = .ok texts) : values = texts.map .string := by
  induction values generalizing position texts with
  | nil =>
    cases h
    rfl
  | cons value rest ih =>
    obtain ⟨text, htext, h⟩ := bind_eq_ok h
    obtain ⟨others, hothers, h⟩ := bind_eq_ok h
    cases h
    cases value with
    | string written =>
      cases htext
      rw [ih hothers, List.map_cons]
    | _ => cases htext

/-- Texts that are read are emitted as their array. -/
theorem emitted_texts {texts : List String} (h : Field.texts members field place = .ok texts) :
    (members.lookup field).bind Json.emittedTexts? =
      if texts.isEmpty then none else some (.ofTexts texts) := by
  rw [← bind_find? rfl]
  unfold Field.texts at h
  cases hfound : find? members field with
  | none =>
    rw [hfound] at h
    cases h
    rfl
  | some value =>
    rw [hfound] at h
    cases value with
    | string text =>
      cases h
      rfl
    | array values =>
      rw [eq_map_of_items_entry h]
      simp [Json.emittedTexts?, Json.ofTexts]
    | _ => cases h

/-- A text that is read is emitted as it is. -/
theorem emitted_text? {setting : Option String} (h : text? members field place = .ok setting) :
    (members.lookup field).bind Json.emittedText? = setting.map .string := by
  rw [← bind_find? rfl]
  unfold text? at h
  cases hfound : find? members field with
  | none =>
    rw [hfound] at h
    cases h
    rfl
  | some value =>
    rw [hfound] at h
    cases value with
    | string text =>
      cases h
      simp only [Option.bind_some, Json.emittedText?]
      split <;> rfl
    | _ => cases h

/-- No empty text is read. -/
theorem ne_empty_of_text? {setting : Option String} (h : text? members field place = .ok setting) :
    setting ≠ some "" := by
  unfold text? at h
  split at h
  · cases h
    exact nofun
  · rename_i text _
    cases h
    rintro hempty
    split at hempty
    · cases hempty
    · cases hempty
      contradiction
  · cases h

/-- Emitted texts are read back. -/
theorem texts_of_emitted {texts : List String}
    (h : members.lookup field = if texts.isEmpty then none else some (.ofTexts texts)) :
    Field.texts members field place = .ok texts := by
  unfold Field.texts find?
  rw [h]
  cases texts with
  | nil => rfl
  | cons text rest => exact items_entry_map 0 (text :: rest)

/-- An emitted text is read back. -/
theorem text?_of_emitted {setting : Option String} (h : members.lookup field = setting.map .string)
    (hne : setting ≠ some "") : text? members field place = .ok setting := by
  unfold text? find?
  rw [h]
  cases setting with
  | none => rfl
  | some text =>
    have hempty : text.isEmpty = false := by
      simpa using fun h => hne (congrArg some h)
    simp only [Option.map_some, hempty]
    rfl

end Field

namespace TermsLimit

/-- An integer stands for its own value as a limit, unless it is negative. -/
theorem emittedLimit?_of_ofInt? {raw : Int} {limit : TermsLimit} (h : ofInt? raw = some limit) :
    Json.emittedLimit? (.number (.integer raw)) =
      limit.cap?.map fun cap => .number (.integer cap.toNat) := by
  unfold ofInt? at h
  simp only [Json.emittedLimit?]
  split at h
  · rename_i hnonneg
    split at h
    · rename_i hlt
      cases h
      have hcap : (UInt64.ofNat raw.toNat).toNat = raw.toNat :=
        UInt64.toNat_ofNat_of_lt (by omega)
      rw [if_pos hnonneg, cap?, Option.map_some, hcap, Int.toNat_of_nonneg hnonneg]
    · cases h
  · rename_i hnegative
    split at h
    · cases h
      exact if_neg hnegative
    · cases h

/-- Every limit is stood for by its value. -/
theorem ofInt?_toNat (cap : UInt64) : ofInt? cap.toNat = some (.capped cap) := by
  have hlt : (cap.toNat : Int) < UInt64.size := Int.ofNat_lt.mpr cap.toNat_lt
  rw [ofInt?, if_pos (Int.natCast_nonneg _), if_pos hlt, Int.toNat_natCast, UInt64.ofNat_toNat]

/-- A limit that is read is emitted as the number that was written. -/
theorem emitted_read {limit : TermsLimit} (h : read members field place = .ok limit) :
    (members.lookup field).bind Json.emittedLimit? =
      limit.cap?.map fun cap => .number (.integer cap.toNat) := by
  rw [← Field.bind_find? rfl]
  unfold read at h
  split at h
  · rename_i hfound
    cases h
    rw [hfound]
    rfl
  · rename_i raw hfound
    rw [hfound, Option.bind_some]
    split at h
    · rename_i hraw
      cases h
      exact emittedLimit?_of_ofInt? hraw
    · cases h
  · cases h

/-- An integer that stands for a limit is read as it. -/
theorem read_of_ofInt? {raw : Int} {limit : TermsLimit}
    (hfound : Field.find? members field = some (.number (.integer raw)))
    (hraw : ofInt? raw = some limit) : read members field place = .ok limit := by
  rw [read, hfound]
  simp only [hraw]
  rfl

/-- An emitted limit is read back. -/
theorem read_of_emitted {limit : TermsLimit}
    (h : members.lookup field = limit.cap?.map fun cap => .number (.integer cap.toNat)) :
    read members field place = .ok limit := by
  cases limit with
  | unset =>
    have hfound : Field.find? members field = none := by
      rw [Field.find?, h]
      rfl
    rw [read, hfound]
    rfl
  | capped cap =>
    refine read_of_ofInt? ?_ (ofInt?_toNat cap)
    rw [Field.find?, h]
    rfl

end TermsLimit

end Reading

namespace Endpoint

/-- What the value of a field of an endpoint is emitted as. The clauses are not emitted. -/
def emitted? (field : String) : Json → Option Json :=
  match field with
  | "indices" | "types" => Json.emittedTexts?
  | "maxTermsPerShard" => Json.emittedLimit?
  | "path" | "orderBy" | "termsEncoding" => Json.emittedText?
  | _ => fun _ => none

variable {place : Pointer} {value : Json} {endpoint : Endpoint}

/-- The path of an endpoint is a text that is not empty. -/
theorem text?_of_readPath {members : List (String × Json)} {path : String}
    (h : readPath members place = .ok path) :
    Field.text? members "path" place = .ok (some path) := by
  obtain ⟨setting, hsetting, h⟩ := bind_eq_ok h
  cases setting with
  | none => cases h
  | some found =>
    cases h
    exact hsetting

/-- A target has what is emitted for the fields of the endpoint that it was read from. -/
theorem written?_of_read (h : read place value = .ok endpoint) (hindices : endpoint.indices ≠ [])
    (field : String) :
    endpoint.written? field = (value.member? field).bind (emitted? field) := by
  obtain ⟨members, rfl, -, hpath, hindices', htypes, horderBy, hmaxTerms, hencoding, -⟩ :=
    read_eq_ok_iff.mp h
  -- A case for each key in the order of the body, two for the types, and one for all other keys.
  fun_cases Target.written? endpoint.toTarget field with
  | case1 =>
    have hnonempty : ¬ endpoint.indices.isEmpty := by simpa using hindices
    exact ((Field.emitted_texts hindices').trans (if_neg hnonempty)).symm
  | case2 => exact (TermsLimit.emitted_read hmaxTerms).symm
  | case3 => exact (Field.emitted_text? horderBy).symm
  | case4 => exact (Field.emitted_text? (text?_of_readPath hpath)).symm
  | case5 => exact (Field.emitted_text? hencoding).symm
  | case6 hempty => exact ((Field.emitted_texts htypes).trans (if_pos hempty)).symm
  | case7 hnonempty => exact ((Field.emitted_texts htypes).trans (if_neg hnonempty)).symm
  | case8 =>
    have hnone : emitted? field = fun _ => none := by
      unfold emitted?
      split <;> simp_all
    rw [hnone, Option.bind_fun_none]

/-- A target has nothing under other keys than those of an endpoint. -/
theorem mem_fields_of_written? {target : Target} {field : String}
    (h : target.written? field ≠ none) : field ∈ fields := by
  fun_cases Target.written? target field <;> simp_all [fields, Target.written?]

/-- An endpoint is read back from what is emitted for it. -/
theorem read_of_written? {members : List (String × Json)} (h : read place value = .ok endpoint)
    (hindices : endpoint.indices ≠ [])
    (hmembers : ∀ field, members.lookup field = endpoint.written? field) (place' : Pointer) :
    read place' (.object members) = .ok { endpoint with queries := [] } := by
  obtain ⟨_, rfl, -, hpath, -, -, horderBy, -, hencoding, -⟩ := read_eq_ok_iff.mp h
  refine read_eq_ok_iff.mpr ⟨members, rfl, fun member hmember => ?_, ?_, ?_, ?_, ?_, ?_, ?_, ?_⟩
  · have hwritten : endpoint.written? member.1 ≠ none := by
      intro hnone
      rw [← hmembers, List.lookup_eq_none_iff] at hnone
      simpa using hnone member hmember
    exact mem_fields_of_written? hwritten
  · have hread : Field.text? members "path" place' = .ok (some endpoint.path) :=
      Field.text?_of_emitted (hmembers "path") (Field.ne_empty_of_text? (text?_of_readPath hpath))
    rw [readPath, hread]
    rfl
  · refine Field.texts_of_emitted ((hmembers "indices").trans ?_)
    have hnonempty : ¬ endpoint.indices.isEmpty := by simpa using hindices
    exact (if_neg hnonempty).symm
  · exact Field.texts_of_emitted (hmembers "types")
  · exact Field.text?_of_emitted (hmembers "orderBy") (Field.ne_empty_of_text? horderBy)
  · exact TermsLimit.read_of_emitted (hmembers "maxTermsPerShard")
  · exact Field.text?_of_emitted (hmembers "termsEncoding") (Field.ne_empty_of_text? hencoding)
  · rw [hmembers "queries"]
    rfl

end Endpoint

namespace Join

variable {place : Pointer} {value : Json} {endpoint : Endpoint}

/-- The join that is built for an endpoint that names an index takes whatever is attached to it. -/
theorem result_build_attachAll (hindices : endpoint.indices ≠ []) (sentinel source : String)
    (attachments : List Attachment) :
    (build sentinel source endpoint >>= attachAll attachments).result =
      .ok (.resolved source endpoint.toTarget attachments) := by
  rw [Traced.result_bind, result_build]
  change (attachAll attachments _).result = _
  rw [result_attachAll]
  simp [bare, hindices, attaching]

/-- The join that is built for an endpoint that names an index, with whatever is attached to it,
carries the settings of the endpoint. Its body without the query is read as this endpoint, less
its clauses, and has for each field what the value of the field is emitted as, and nothing else.
In particular it has a limit exactly if the endpoint has one that is not negative, and the same. -/
theorem read_body (hread : Endpoint.read place value = .ok endpoint)
    (hindices : endpoint.indices ≠ []) (sentinel source : String)
    (attachments : List Attachment) :
    ∃ join body,
      (build sentinel source endpoint >>= attachAll attachments).result = .ok join ∧
      join.toJson = .object [("filterjoin", .object [(source, body)])] ∧
      (∀ place, Endpoint.read place (body.removeMember "query") =
        .ok { endpoint with queries := [] }) ∧
      (∀ field, (body.removeMember "query").member? field =
        (value.member? field).bind (Endpoint.emitted? field)) ∧
      (∀ emitted, body.member? "maxTermsPerShard" = some emitted ↔
        ∃ cap : Nat, cap < UInt64.size ∧ emitted = .number (.integer cap) ∧
          value.member? "maxTermsPerShard" = some (.number (.integer cap))) := by
  refine ⟨_, _, result_build_attachAll hindices sentinel source attachments,
    by rw [Join.toJson, wrap], fun place => ?_, fun field => ?_, fun emitted => ?_⟩
  · exact Endpoint.read_of_written? hread hindices (Target.member?_withoutQuery _ _) place
  · rw [Target.member?_withoutQuery, Endpoint.written?_of_read hread hindices]
  · have hlimit := Endpoint.written?_of_read hread hindices "maxTermsPerShard"
    rw [Target.member?_toJson, if_neg (by decide)]
    constructor
    · intro h
      obtain ⟨limit, -, hcap⟩ := Option.map_eq_some_iff.mp h
      rw [hlimit] at h
      obtain ⟨written, hwritten, hemitted⟩ := Option.bind_eq_some_iff.mp h
      obtain ⟨cap, rfl, rfl⟩ := Json.emittedLimit?_eq_some_iff.mp hemitted
      have hlimit : limit.toNat = cap := by simpa using hcap
      exact ⟨cap, hlimit ▸ limit.toNat_lt, rfl, hwritten⟩
    · rintro ⟨cap, -, rfl, hwritten⟩
      rw [hlimit, hwritten]
      exact Json.emittedLimit?_eq_some_iff.mpr ⟨cap, rfl, rfl⟩

/-- An endpoint with the greatest limit, a single type and an ordering that is empty. -/
def cappedEndpoint : Json :=
  .object [("indices", .array [.string "articles"]),
    ("maxTermsPerShard", .number (.integer 18446744073709551615)), ("orderBy", .string ""),
    ("path", .string "company"), ("types", .string "news")]

/-- A clause that takes part in scoring, and a join that is excluded. -/
def clauseAndExcluded : List Attachment :=
  [.clause (.scored (.object [("query", .string "lean")])) false,
    .join (.resolved "id"
      { path := "author", indices := ["people"], types := [], orderBy := none, maxTerms := .unset,
        encoding := none } []) true]

/-- With a clause and a join attached, the greatest limit is emitted, the single type as a list of
one, and the empty ordering not. Without its query the body is read as the endpoint. -/
theorem read_body_cappedEndpoint :
    ∃ endpoint : Endpoint, Endpoint.read [] cappedEndpoint = .ok endpoint ∧
      endpoint.indices ≠ [] ∧
      ∃ join body, (build "none" "id" endpoint >>= attachAll clauseAndExcluded).result = .ok join ∧
        join.toJson = .object [("filterjoin", .object [("id", body)])] ∧
        (∀ place, Endpoint.read place (body.removeMember "query") =
          .ok { endpoint with queries := [] }) ∧
        body.member? "maxTermsPerShard" = some (.number (.integer 18446744073709551615)) ∧
        (body.removeMember "query").member? "types" = some (.array [.string "news"]) ∧
        (body.removeMember "query").member? "orderBy" = none := by
  have hread : Endpoint.read [] cappedEndpoint =
      .ok { path := "company", indices := ["articles"], types := ["news"], orderBy := none,
            maxTerms := .capped 18446744073709551615, encoding := none, queries := [] } := by
    decide +kernel
  refine ⟨_, hread, by decide, ?_⟩
  obtain ⟨join, body, hjoin, hbody, hreread, hfields, hlimit⟩ :=
    read_body hread (by decide) "none" "id" clauseAndExcluded
  refine ⟨join, body, hjoin, hbody, hreread, ?_, (hfields "types").trans (by decide),
    (hfields "orderBy").trans (by decide)⟩
  exact (hlimit _).mpr ⟨18446744073709551615, by decide, rfl, rfl⟩

end Join

end Semijoin
