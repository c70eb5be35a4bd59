import Semijoin.Proofs.Document.Preorder
import Semijoin.Proofs.Specification.Carrying

/-!
# Values without specifications

In a settled value labels are left in one place only: as the source of a join, directly under the
key that marks the join. What is read from a settled value is settled, down to the clauses of a
client, and a join that carries settled queries has a settled clause.
-/

namespace Semijoin

open Json

/-- Both labels are looked for. -/
theorem Label.mem_all (label : Label) : label ∈ Label.all := by
  cases label <;> decide

namespace Json

variable {emitted : Join → Prop}

/-- No object in a value has a label as a key, except where it is the source of a join that has
been emitted. -/
inductive Settled (emitted : Join → Prop) : Json → Prop
  | null : Settled emitted .null
  | bool (value : Bool) : Settled emitted (.bool value)
  | number (value : Number) : Settled emitted (.number value)
  | string (value : String) : Settled emitted (.string value)
  | array {items : List Json} (hitems : ∀ item ∈ items, Settled emitted item) :
      Settled emitted (.array items)
  | object {members : List (String × Json)}
      (hkeys : ∀ label ∈ Label.all, label.key ∉ members.map Prod.fst)
      (hmembers : ∀ member ∈ members, Settled emitted member.2) :
      Settled emitted (.object members)
  | join {join : Join} {body : Json} (hjoin : emitted join)
      (hjson : join.toJson = Join.wrap join.source body) (hbody : Settled emitted body) :
      Settled emitted (.object [("filterjoin", .object [(join.source, body)])])

/-- A part of a settled value: settled, or the object that names the source of a join. -/
inductive SettledPart (emitted : Join → Prop) : Json → Prop
  | whole {value : Json} (h : Settled emitted value) : SettledPart emitted value
  | inner {key : String} {body : Json} (hbody : Settled emitted body) :
      SettledPart emitted (.object [(key, body)])

/-- The parts of a settled value are such parts, and the elements of arrays are settled. -/
theorem passesDown_settled : PassesDown (SettledPart emitted) (Settled emitted) where
  null := .whole .null
  item h := by
    cases h with
    | whole h =>
      cases h with
      | array hitems => exact fun item hitem => .whole (hitems item hitem)
  element h := by
    cases h with
    | whole h =>
      cases h with
      | array hitems => exact hitems
  member h := by
    cases h with
    | whole h =>
      cases h with
      | object hkeys hmembers => exact fun member hmember => .whole (hmembers member hmember)
      | join hjoin hjson hbody => exact List.forall_mem_singleton.mpr (.inner hbody)
    | inner hbody => exact List.forall_mem_singleton.mpr (.whole hbody)

/-- The object at a place stands directly under the key that marks a join, and its only key is a
label, which is the source of the join. -/
def NamesSource (emitted : Join → Prop) (label : Label) (value : Json) (place : Pointer)
    (members : List (String × Json)) : Prop :=
  ∃ (outer : Pointer) (join : Join) (body : Json), place = outer ++ [.key "filterjoin"] ∧
    emitted join ∧ join.source = label.key ∧ outer.resolve? value = some join.toJson ∧
    members = [(label.key, body)]

/-- What a part of a value names as a source, the value names one step further in. -/
theorem NamesSource.under {label : Label} {value part : Json} {place : Pointer}
    {members : List (String × Json)} (h : NamesSource emitted label part place members)
    (base : Pointer) (hpart : base.resolve? value = some part) :
    NamesSource emitted label value (base ++ place) members := by
  obtain ⟨outer, join, body, rfl, hjoin, hsource, houter, hmembers⟩ := h
  refine ⟨base ++ outer, join, body, (List.append_assoc _ _ _).symm, hjoin, hsource, ?_, hmembers⟩
  rw [Pointer.resolve?_append, hpart]
  exact houter

/-- No label is found among keys that are not labels. -/
theorem lookup_label_eq_none {members : List (String × Json)}
    (hkeys : ∀ label ∈ Label.all, label.key ∉ members.map Prod.fst) (label : Label) :
    members.lookup label.key = none := by
  rw [List.lookup_eq_none_iff]
  intro member hmember
  refine bne_iff_ne.mpr fun heq => hkeys label label.mem_all ?_
  rw [heq]
  exact List.mem_map_of_mem hmember

/-- Directly under the key that marks a join, and further inside, a label is a key only as the
source of a join if it is so in the body of this join. -/
theorem namesSource_inside {join : Join} {body : Json} (hjoin : emitted join)
    (hjson : join.toJson = Join.wrap join.source body) {label : Label}
    (hbody : ∀ {place : Pointer} {members : List (String × Json)},
      place.resolve? body = some (.object members) → (members.lookup label.key).isSome →
      NamesSource emitted label body place members)
    {place : Pointer} {members : List (String × Json)}
    (hplace : place.resolve? (.object [(join.source, body)]) = some (.object members))
    (hlabel : (members.lookup label.key).isSome) :
    NamesSource emitted label (Join.wrap join.source body) (.key "filterjoin" :: place)
      members := by
  cases place with
  | nil =>
    cases hplace
    obtain ⟨found, hfound⟩ := Option.isSome_iff_exists.mp hlabel
    obtain ⟨hsource, -⟩ := eq_of_lookup_singleton hfound
    exact ⟨[], join, body, rfl, hjoin, hsource.symm, congrArg some hjson.symm, by rw [hsource]⟩
  | cons segment rest =>
    cases segment with
    | index position => cases hplace
    | key source =>
      obtain ⟨value, hvalue, hinside⟩ := Option.bind_eq_some_iff.mp hplace
      obtain ⟨rfl, rfl⟩ := eq_of_lookup_singleton hvalue
      refine (hbody hinside hlabel).under [.key "filterjoin", .key join.source] ?_
      simp [Pointer.resolve?, Join.wrap]

/-- Where a label is a key in a settled value, it is the source of a join. -/
theorem Settled.namesSource {value : Json} (h : value.Settled emitted) {place : Pointer}
    {members : List (String × Json)} (hplace : place.resolve? value = some (.object members))
    {label : Label} (hlabel : (members.lookup label.key).isSome) :
    NamesSource emitted label value place members := by
  induction h generalizing place members with
  | null | bool value | number value | string value =>
    cases place with
    | nil => cases hplace
    | cons segment rest => cases segment <;> cases hplace
  | @array items hitems ih =>
    cases place with
    | nil => cases hplace
    | cons segment rest =>
      cases segment with
      | key name => cases hplace
      | index position =>
        obtain ⟨item, hitem, hrest⟩ := Option.bind_eq_some_iff.mp hplace
        refine (ih item (List.mem_of_getElem? hitem) hrest hlabel).under [.index position] ?_
        simp [Pointer.resolve?, hitem]
  | @object members' hkeys hmembers ih =>
    cases place with
    | nil =>
      cases hplace
      rw [lookup_label_eq_none hkeys] at hlabel
      cases hlabel
    | cons segment rest =>
      cases segment with
      | index position => cases hplace
      | key name =>
        obtain ⟨member, hmember, hrest⟩ := Option.bind_eq_some_iff.mp hplace
        obtain ⟨before, after, hsplit, -⟩ := List.lookup_eq_some_iff.mp hmember
        refine (ih (name, member) (by simp [hsplit]) hrest hlabel).under [.key name] ?_
        simp [Pointer.resolve?, hmember]
  | @join join body hjoin hjson hbody ih =>
    cases place with
    | nil =>
      cases hplace
      obtain ⟨found, hfound⟩ := Option.isSome_iff_exists.mp hlabel
      obtain ⟨hmarker, -⟩ := eq_of_lookup_singleton hfound
      exact absurd hmarker (by cases label <;> decide)
    | cons segment rest =>
      cases segment with
      | index position => cases hplace
      | key name =>
        obtain ⟨inner, hinner, hrest⟩ := Option.bind_eq_some_iff.mp hplace
        obtain ⟨rfl, rfl⟩ := eq_of_lookup_singleton hinner
        exact namesSource_inside hjoin hjson ih hrest hlabel

/-- There is no host and no crowded object in an object that has no label as a key, if there is none
in its values. -/
theorem uncrowded_object {members : List (String × Json)}
    (hkeys : ∀ label ∈ Label.all, label.key ∉ members.map Prod.fst)
    (hmembers : ∀ member ∈ members, member.2.Uncrowded ∧ Host.allIn [] member.2 = []) :
    (object members).Uncrowded ∧ Host.allIn [] (object members) = [] := by
  constructor
  · refine ⟨fun label _ hfound => ?_, membersUncrowded_iff.mpr fun member hmember => ?_⟩
    · rw [lookup_label_eq_none hkeys] at hfound
      cases hfound
    · exact (hmembers member hmember).1
  · have hhere : Host.here [] members = [] := by
      unfold Host.here
      split
      · rename_i label specification hhosted
        rw [hosted?_eq_some_iff.mp hhosted] at hkeys
        exact absurd List.mem_cons_self (hkeys label label.mem_all)
      · rfl
    rw [Host.allIn, hhere, List.nil_append]
    refine List.eq_nil_iff_forall_not_mem.mpr fun host hhost => ?_
    obtain ⟨key, value, inner, hmember, hinner, -⟩ := Host.mem_allInMembers.mp hhost
    rw [(hmembers _ hmember).2] at hinner
    cases hinner

/-- There is none in an object of one member that is not a label, if there is none in its value. -/
theorem uncrowded_object_singleton {key : String} {value : Json}
    (hkey : ∀ label ∈ Label.all, label.key ≠ key)
    (h : value.Uncrowded ∧ Host.allIn [] value = []) :
    (object [(key, value)]).Uncrowded ∧ Host.allIn [] (object [(key, value)]) = [] :=
  uncrowded_object (fun label hlabel hmem => hkey label hlabel (List.mem_singleton.mp hmem))
    (List.forall_mem_singleton.mpr h)

/-- A settled value in which no label is the source of a join has no host and no crowded object. -/
theorem Settled.uncrowded {value : Json} (h : value.Settled emitted)
    (hsources : ∀ join, emitted join → ∀ label ∈ Label.all, join.source ≠ label.key) :
    value.Uncrowded ∧ Host.allIn [] value = [] := by
  induction h with
  | null | bool value | number value | string value => exact ⟨trivial, rfl⟩
  | @array items hitems ih =>
    refine ⟨itemsUncrowded_iff.mpr fun item h => (ih item h).1, ?_⟩
    refine List.eq_nil_iff_forall_not_mem.mpr fun host hhost => ?_
    obtain ⟨offset, item, inner, hitem, hinner, -⟩ := Host.mem_allInItems.mp hhost
    rw [(ih item (List.mem_of_getElem? hitem)).2] at hinner
    cases hinner
  | @object members hkeys hmembers ih => exact uncrowded_object hkeys ih
  | @join join body hjoin hjson hbody ih =>
    have hsource (label : Label) (hlabel : label ∈ Label.all) : label.key ≠ join.source :=
      (hsources join hjoin label hlabel).symm
    exact uncrowded_object_singleton (by decide) (uncrowded_object_singleton hsource ih)

/-- An object is settled if no label is among its keys and its values are settled. -/
theorem settled_object {members : List (String × Json)} (keys : List String)
    (hkeys : members.map Prod.fst = keys) (hlabels : ∀ label ∈ Label.all, label.key ∉ keys)
    (hmembers : ∀ member ∈ members, member.2.Settled emitted) :
    (object members).Settled emitted :=
  .object (by rwa [hkeys]) hmembers

/-- An object of one member that is not a label is settled if its value is. -/
theorem settled_object_singleton {key : String} {value : Json}
    (hlabels : ∀ label ∈ Label.all, label.key ∉ [key]) (h : value.Settled emitted) :
    (object [(key, value)]).Settled emitted :=
  settled_object [key] rfl hlabels (List.forall_mem_singleton.mpr h)

/-- A list of texts is settled. -/
theorem settled_ofTexts (texts : List String) : (ofTexts texts).Settled emitted := by
  refine .array fun item hitem => ?_
  obtain ⟨text, -, rfl⟩ := List.mem_map.mp hitem
  exact .string text

/-- The query that every document matches is settled. -/
theorem settled_matchAll : matchAll.Settled emitted :=
  settled_object_singleton (by decide) (.object (by decide) (List.forall_mem_nil _))

/-- A boolean query of settled clauses is settled. -/
theorem settled_boolean {occurrence : String}
    (hlabels : ∀ label ∈ Label.all, label.key ∉ [occurrence])
    {clauses : List Json} (h : ∀ clause ∈ clauses, clause.Settled emitted) :
    (boolean occurrence clauses).Settled emitted :=
  settled_object_singleton (by decide) (settled_object_singleton hlabels (.array h))

end Json

namespace Join

open Json

variable {emitted : Join → Prop}

/-- The body of a join is settled if its query is. -/
theorem settled_toJson_target (target : Target) {query : Json} (hquery : query.Settled emitted) :
    (target.toJson query).Settled emitted := by
  have hfixed : ∀ label ∈ Label.all, label.key ∉
      ["indices", "maxTermsPerShard", "orderBy", "path", "query", "termsEncoding", "types"] := by
    decide
  have hlabels (label : Label) (hlabel : label ∈ Label.all) :
      label.key ∉ (target.toJson query).members.map Prod.fst :=
    fun hmem => hfixed label hlabel ((target.keys_toJson query).subset hmem)
  exact .object hlabels (target.forall_members_toJson hquery .string settled_ofTexts
    fun _ => .number _)

/-- The query of a join is settled if the clauses in it are. -/
theorem settled_query {scored required excluded : List Json} (anyNegated : Bool)
    (hscored : ∀ clause ∈ scored, clause.Settled emitted)
    (hrequired : ∀ clause ∈ required, clause.Settled emitted)
    (hexcluded : ∀ clause ∈ excluded, clause.Settled emitted) :
    (query scored required excluded anyNegated).Settled emitted := by
  have hfilter : (object (("must", array required) ::
      if anyNegated then [("must_not", array excluded)] else [])).Settled emitted := by
    cases anyNegated with
    | false => exact settled_object_singleton (by decide) (.array hrequired)
    | true =>
      exact settled_object ["must", "must_not"] rfl (by decide) (List.forall_mem_cons.mpr
        ⟨.array hrequired, List.forall_mem_singleton.mpr (.array hexcluded)⟩)
  have hmust : (array (matchAll :: scored)).Settled emitted :=
    .array (List.forall_mem_cons.mpr ⟨settled_matchAll, hscored⟩)
  exact settled_object_singleton (by decide) (settled_object ["filter", "must"] rfl (by decide)
    (List.forall_mem_cons.mpr
      ⟨settled_object_singleton (by decide) hfilter, List.forall_mem_singleton.mpr hmust⟩))

/-- Being settled passes through every join that is emitted. -/
theorem passes_settled : Passes (Settled emitted) emitted where
  resolved source target attached hjoin hscored hfilters := by
    have hquery := settled_query (Attachment.anyNegated attached) hscored (hfilters false)
      (hfilters true)
    rw [toJson]
    exact .join hjoin (by rw [toJson]; rfl) (settled_toJson_target target hquery)
  unresolved source path sentinel hjoin := by
    have hquery : (boolean "must_not" [matchAll]).Settled emitted :=
      settled_boolean (by decide) (List.forall_mem_singleton.mpr settled_matchAll)
    have hbody : (object [("indices", .ofTexts [sentinel]), ("path", .string path),
        ("query", .boolean "must_not" [matchAll])]).Settled emitted :=
      settled_object ["indices", "path", "query"] rfl (by decide) (List.forall_mem_cons.mpr
        ⟨settled_ofTexts _, List.forall_mem_cons.mpr
          ⟨.string path, List.forall_mem_singleton.mpr hquery⟩⟩)
    rw [toJson]
    exact .join hjoin (by rw [toJson]; rfl) hbody

/-- The clauses of emitted joins that carry settled queries are settled. -/
theorem settled_clauses {joins : List (Join × Bool)}
    (hemitted : ∀ outer ∈ joins, ∀ join, join.Within outer.1 → emitted join)
    (h : ∀ join ∈ joins, join.1.Carries (Settled emitted)) :
    ∀ clause ∈ clauses joins, clause.Settled emitted := by
  have hnegated (clause : Json) (hclause : clause.Settled emitted) :
      (boolean "must_not" [clause]).Settled emitted :=
    settled_boolean (by decide) (List.forall_mem_singleton.mpr hclause)
  refine clauses_of_toJson hnegated fun join hjoin => ?_
  exact passes_settled.toJson join.1 (h join hjoin) (hemitted join hjoin)

end Join

end Semijoin
