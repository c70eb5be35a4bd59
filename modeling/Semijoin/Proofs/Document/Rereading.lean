import Semijoin.Multisearch
import Semijoin.Proofs.Document.Expansion
import Semijoin.Proofs.Json.Doubles
import Semijoin.Proofs.Json.Reading
import Semijoin.Proofs.Json.RoundTrip
import Semijoin.Proofs.Join.Soundness
import Semijoin.Proofs.Specification.Carrying

/-!
# Reading an expanded document again

The limit on the nesting of joins is meant to keep expanded documents readable. The reader counts
arrays and objects, though, and a join opens eight of them. What is true: the text of an expanded
document reads back as the document exactly when its arrays and objects do not nest too deep for
the reader, however deep its joins nest.
-/

namespace Semijoin

open Json

namespace Json

/-- Every double in a value reads back from its own text. -/
def FloatsReread (value : Json) : Prop :=
  ∀ bits ∈ value.floats, ofChars (Number.floatChars bits) = .ok (.number (.float bits))

/-- The text of a value reads back as the value if it nests no deeper than the reader allows, and
is refused for its nesting otherwise. -/
def Rereads (value : Json) : Prop :=
  (value.nesting ≤ Reader.nestingLimit → ofChars (value.chars .compact 0) = .ok value) ∧
  (Reader.nestingLimit < value.nesting → ∃ position,
    ofChars (value.chars .compact 0) = .error ⟨.deepNesting, position⟩)

/-- A sound value is read again if its doubles are. -/
theorem Sound.rereads {value : Json} (h : value.Sound) (hfloats : value.FloatsReread) :
    value.Rereads :=
  ofChars_chars h fun bits hbits => Number.spells_float (hfloats bits hbits)

end Json

/-- Soundness passes from a value to its parts. -/
theorem Json.passesDown_sound : PassesDown Sound Sound where
  null := trivial
  item h := itemsSound_iff.mp h
  element h := itemsSound_iff.mp h
  member h := membersSound_iff.mp h.2

/-- The clauses of the specification in a sound value are sound. -/
theorem Specification.itemsSound_clauses? {sentinel : String} {label : Label} {value : Json}
    (hvalue : value.Sound) {clauses : List Json}
    (h : clauses? sentinel label value = some clauses) : ItemsSound clauses := by
  obtain ⟨specification, joins, hread, hjoins, rfl⟩ := exists_joins_of_clauses? h
  exact itemsSound_iff.mpr
    (passesUp_sound.clauses (carries_of_joins passesDown_sound hvalue hread hjoins))

/-- The value or the clauses of an image are sound. -/
def Image.Sound : Image → Prop
  | .value v => v.Sound
  | .clauses cs => ItemsSound cs

namespace Image

/-- A sound image is a sound value. -/
theorem Sound.asValue {image : Image} (h : image.Sound) : image.asValue.Sound := by
  cases image with
  | value value => exact h
  | clauses clauses => exact h

/-- A sound image puts sound elements into an array. -/
theorem Sound.asItems {image : Image} (h : image.Sound) : ItemsSound image.asItems := by
  cases image with
  | value value => exact ⟨h, trivial⟩
  | clauses clauses => exact h

end Image

namespace Json

variable {sentinel : String}

/-- Elements of two lists are sound if those of each list are. -/
theorem itemsSound_append {first second : List Json} (hfirst : ItemsSound first)
    (hsecond : ItemsSound second) : ItemsSound (first ++ second) := by
  rw [itemsSound_iff] at hfirst hsecond ⊢
  exact List.forall_mem_append.mpr ⟨hfirst, hsecond⟩

mutual

/-- A sound value has a sound image. -/
theorem sound_of_image? : (value : Json) → value.Sound → ∀ {image : Image} {count : Nat},
    image? sentinel value = some (image, count) → image.Sound
  | .array items, hvalue, image, count, h => by
    rw [image?] at h
    obtain ⟨⟨items', m⟩, hitems, h⟩ := Option.bind_eq_some_iff.mp h
    cases h
    exact itemsSound_of_itemsImage? items hvalue hitems
  | .object members, hvalue, image, count, h => by
    rw [image?] at h
    obtain ⟨⟨members', m⟩, hmembers, h⟩ := Option.bind_eq_some_iff.mp h
    have hsound := membersSound_of_membersImage? members hvalue.2 hmembers
    dsimp only at h
    cases hhosted : hosted? members' with
    | none =>
      rw [hhosted] at h
      cases h
      have hordered := (keysOrdered_iff_keys _ (keys_membersImage? hmembers)).mpr
        ((keysOrdered_iff_keys _ rfl).mp hvalue.1)
      exact ⟨hordered, hsound⟩
    | some found =>
      rw [hhosted] at h
      obtain ⟨clauses, hclauses, h⟩ := Option.bind_eq_some_iff.mp h
      cases h
      rw [hosted?_eq_some_iff.mp hhosted] at hsound
      exact Specification.itemsSound_clauses? hsound.1 hclauses
  | .null, _, image, count, h | .bool _, _, image, count, h | .string _, _, image, count, h => by
    cases h
    exact trivial
  | .number _, hvalue, image, count, h => by
    cases h
    exact hvalue

/-- Sound elements become sound elements. -/
theorem itemsSound_of_itemsImage? : (items : List Json) → ItemsSound items →
    ∀ {items' : List Json} {count : Nat}, itemsImage? sentinel items = some (items', count) →
    ItemsSound items'
  | [], _, items', count, h => by
    cases h
    exact trivial
  | item :: rest, hitems, items', count, h => by
    rw [itemsImage?] at h
    obtain ⟨⟨first, m⟩, hfirst, h⟩ := Option.bind_eq_some_iff.mp h
    obtain ⟨⟨others, n⟩, hothers, h⟩ := Option.bind_eq_some_iff.mp h
    cases h
    exact itemsSound_append (sound_of_image? item hitems.1 hfirst).asItems
      (itemsSound_of_itemsImage? rest hitems.2 hothers)

/-- Sound members become sound members. -/
theorem membersSound_of_membersImage? : (members : List (String × Json)) → MembersSound members →
    ∀ {members' : List (String × Json)} {count : Nat},
    membersImage? sentinel members = some (members', count) → MembersSound members'
  | [], _, members', count, h => by
    cases h
    exact trivial
  | (key, value) :: rest, hmembers, members', count, h => by
    rw [membersImage?] at h
    obtain ⟨⟨first, m⟩, hfirst, h⟩ := Option.bind_eq_some_iff.mp h
    obtain ⟨⟨others, n⟩, hothers, h⟩ := Option.bind_eq_some_iff.mp h
    cases h
    exact ⟨(sound_of_image? value hmembers.1 hfirst).asValue,
      membersSound_of_membersImage? rest hmembers.2 hothers⟩

end

end Json

namespace Document

variable {sentinel : String}

/-- Expanding a sound document leaves a sound document. -/
theorem sound_expand {document : Json} (hsound : document.Sound) (hordered : document.IsOrdered)
    {report : Report} (hexpand : (expand sentinel document).outcome.result = .ok report) :
    (expand sentinel document).document.Sound := by
  obtain ⟨count, hrewrite⟩ := rewrite?_of_expand sentinel hordered hexpand
  obtain ⟨⟨image, m⟩, himage, h⟩ := Option.map_eq_some_iff.mp hrewrite
  have hvalue := (sound_of_image? document hsound himage).asValue
  rw [Prod.mk.injEq] at h
  rwa [← h.1]

end Document

namespace Multisearch

variable {sentinel : String}

/-- A search that can be expanded becomes the text of an expanded document. -/
theorem expandSearch_eq_ok {search : Line} {text : List Char} {report : Report}
    (h : (expandSearch sentinel search).result = .ok (text, report)) :
    ∃ document report, Json.ofChars search.text = .ok document ∧
      (Document.expand sentinel document).outcome.result = .ok report ∧
      text = (Document.expand sentinel document).document.chars .compact 0 := by
  obtain ⟨document, hread, h⟩ := Traced.bind_eq_ok h
  obtain ⟨_, hexpand, h⟩ := Traced.bind_eq_ok h
  cases h
  exact ⟨document, report, eq_ok_of_mapError hread, eq_ok_of_mapError hexpand, rfl⟩

/-- Every other line of an expanded body is the text of an expanded document. -/
theorem exists_search_of_expandLines {lines : List Line} {body : Body}
    (h : (expandLines sentinel lines).result = .ok body) {position : Nat} {text : List Char}
    (htext : body.lines[2 * position + 1]? = some text) :
    ∃ search document report, lines[2 * position + 1]? = some search ∧
      Json.ofChars search.text = .ok document ∧
      (Document.expand sentinel document).outcome.result = .ok report ∧
      text = (Document.expand sentinel document).document.chars .compact 0 := by
  induction lines using expandLines.induct generalizing body position with
  | case1 =>
    cases h
    cases htext
  | case2 header => cases h
  | case3 header search rest ih =>
    obtain ⟨⟨written, report⟩, hsearch, h⟩ := Traced.bind_eq_ok h
    obtain ⟨others, hothers, h⟩ := Traced.bind_eq_ok h
    cases h
    cases position with
    | zero =>
      cases htext
      obtain ⟨document, report, hread, hexpand, htext⟩ := expandSearch_eq_ok hsearch
      exact ⟨search, document, report, rfl, hread, hexpand, htext⟩
    | succ position => exact ih hothers htext

end Multisearch

/-- **Reading an expanded document again.** Whenever a document that has been read expands, the
text of what comes out reads back as it stands if its arrays and objects nest no deeper than the
reader allows, and is refused for its nesting otherwise. The same is true of every search in a
multi-search body that expands. Only the doubles in the document have to read back from their own
texts. -/
theorem Document.rereads_expand (sentinel : String) :
    (∀ (text : List Char) (document : Json) (report : Report),
      Json.ofChars text = .ok document →
      (expand sentinel document).outcome.result = .ok report →
      (expand sentinel document).document.FloatsReread →
      (expand sentinel document).document.Rereads) ∧
    ∀ (text : String) (body : Multisearch.Body),
      (Multisearch.expand sentinel text).result = .ok body →
      ∀ (position : Nat) (written : List Char), body.lines[2 * position + 1]? = some written →
      ∃ search document report,
        (Multisearch.linesOf text.toList)[2 * position + 1]? = some search ∧
        Json.ofChars search.text = .ok document ∧
        (expand sentinel document).outcome.result = .ok report ∧
        written = (expand sentinel document).document.chars .compact 0 ∧
        ((expand sentinel document).document.FloatsReread →
          (expand sentinel document).document.Rereads) := by
  have hdocument (text : List Char) (document : Json) (report : Report)
      (hread : Json.ofChars text = .ok document)
      (hexpand : (expand sentinel document).outcome.result = .ok report)
      (hfloats : (expand sentinel document).document.FloatsReread) :
      (expand sentinel document).document.Rereads :=
    (sound_expand (sound_of_ofChars hread) (isOrdered_of_ofChars hread) hexpand).rereads hfloats
  refine ⟨hdocument, fun text body hbody position written hwritten => ?_⟩
  obtain ⟨expanded, hexpanded, hbody⟩ := Traced.bind_eq_ok hbody
  obtain ⟨_, -, hbody⟩ := Traced.bind_eq_ok hbody
  cases hbody
  obtain ⟨search, document, report, hsearch, hread, hexpand, htext⟩ :=
    Multisearch.exists_search_of_expandLines hexpanded hwritten
  exact ⟨search, document, report, hsearch, hread, hexpand, htext,
    hdocument search.text document report hread hexpand⟩

namespace Document

/-- A host with a clause that has a double in it. -/
def weightedHost : Json :=
  relationHost
    [("indices", .string "b"), ("path", .string "id"), ("queries", .array
      [.object [("term", .object [("weight", .number (.float 0x3FE0000000000000))])]])]
    [("indices", .string "a"), ("path", .string "to_b")]

/-- A multi-search body with this host on its second line. -/
def weightedBody : List Char := '\x7b' :: '\x7d' :: '\n' :: weightedHost.chars .compact 0

/-- The host expands to a document that is read again, alone and as the search of a body. -/
theorem rereads_expand_weightedHost :
    (expand ".filterjoin" weightedHost).document.Rereads ∧
      ∃ body, (Multisearch.expand ".filterjoin" (String.ofList weightedBody)).result = .ok body ∧
        ∃ written, body.lines[1]? = some written ∧
          Json.ofChars written = .ok (expand ".filterjoin" weightedHost).document := by
  have hread : Json.ofChars (weightedHost.chars .compact 0) = .ok weightedHost :=
    eq_ok_of_toOption (by decide +kernel)
  have hexpand : (expand ".filterjoin" weightedHost).outcome.result = .ok ⟨0, 1, 1⟩ :=
    eq_ok_of_toOption (by decide +kernel)
  have hfloats : (expand ".filterjoin" weightedHost).document.FloatsReread := by
    have hlist : (expand ".filterjoin" weightedHost).document.floats = [0x3FE0000000000000] := by
      decide +kernel
    unfold Json.FloatsReread
    rw [hlist]
    exact List.forall_mem_singleton.mpr (eq_ok_of_toOption (by decide +kernel))
  have hbody : (Multisearch.expand ".filterjoin" (String.ofList weightedBody)).result =
      .ok ⟨[['\x7b', '\x7d'], (expand ".filterjoin" weightedHost).document.chars .compact 0], 1,
        ⟨0, 1, 1⟩⟩ := by
    unfold Multisearch.expand
    rw [String.toList_ofList]
    exact eq_ok_of_toOption (by decide +kernel)
  have hline : (Multisearch.linesOf weightedBody)[2 * 0 + 1]? =
      some ⟨2, weightedHost.chars .compact 0⟩ := by
    decide +kernel
  obtain ⟨search, document, report, hsearch, hdocument, -, hwritten, hrereads⟩ :=
    (rereads_expand ".filterjoin").2 _ _ hbody 0 _ rfl
  rw [String.toList_ofList, hline] at hsearch
  rw [← Option.some.inj hsearch, hread] at hdocument
  rw [← Except.ok.inj hdocument] at hrereads
  exact ⟨(rereads_expand ".filterjoin").1 _ _ _ hread hexpand hfloats, _, hbody, _, rfl,
    (hrereads hfloats).1 (by decide +kernel)⟩

/-- A host with a chain that joins an index with itself several times. -/
def chainHost (steps : Nat) : Json :=
  .object [("join_sequence", .array (List.replicate steps (.object [("relation", .array
    [.object [("indices", .string "a"), ("path", .string "id")],
      .object [("indices", .string "a"), ("path", .string "parent")]])])))]

/-- The joins of such a chain, one in the other. -/
def tower : (nested : Nat) → Join
  | 0 => .resolved "parent" (Endpoint.ofIndex "a" "id").toTarget []
  | nested + 1 =>
    .resolved "parent" (Endpoint.ofIndex "a" "id").toTarget [.join (tower nested) false]

/-- A tower is as deep as it has joins. -/
theorem depth_tower (nested : Nat) : (tower nested).depth = nested + 1 := by
  induction nested with
  | zero => rfl
  | succ nested ih => simp only [tower, Join.depth, Join.attachedDepth, ih, Nat.max_zero]

/-- A host with a chain is sound. -/
theorem sound_chainHost (steps : Nat) : (chainHost steps).Sound := by
  refine passesUp_sound.object_singleton (itemsSound_iff.mpr fun step hstep => ?_)
  rw [List.eq_of_mem_replicate hstep]
  have hendpoint (index path : String) :
      (object [("indices", .string index), ("path", .string path)]).Sound :=
    ⟨(keysOrdered_iff_keys ["indices", "path"] rfl).mpr (by decide), trivial, trivial, trivial⟩
  exact passesUp_sound.object_singleton ⟨hendpoint "a" "id", hendpoint "a" "parent", trivial⟩

/-- Sixteen nested joins are allowed and already nest too deep for the reader. -/
theorem not_reread_chainHost :
    Json.ofChars ((chainHost 16).chars .compact 0) = .ok (chainHost 16) ∧
      (expand ".filterjoin" (chainHost 16)).outcome.result = .ok ⟨0, 1, 1⟩ ∧
      (expand ".filterjoin" (chainHost 16)).document.floats = [] ∧
      ∃ position, Json.ofChars ((expand ".filterjoin" (chainHost 16)).document.chars .compact 0) =
        .error ⟨.deepNesting, position⟩ := by
  have hexpand : (expand ".filterjoin" (chainHost 16)).outcome.result = .ok ⟨0, 1, 1⟩ :=
    eq_ok_of_toOption (by decide +kernel)
  have hwritten : (expand ".filterjoin" (chainHost 16)).document = .array [(tower 15).toJson] := by
    decide +kernel
  have hfloats : (Json.array [(tower 15).toJson]).floats = [] := by decide +kernel
  have hread : Json.ofChars ((chainHost 16).chars .compact 0) = .ok (chainHost 16) := by
    have hnone : (chainHost 16).floats = [] := by decide +kernel
    have hrereads : (chainHost 16).Rereads :=
      (sound_chainHost 16).rereads (by simp [FloatsReread, hnone])
    exact hrereads.1 (by decide +kernel)
  have hsound : (Json.array [(tower 15).toJson]).Sound := by
    rw [← hwritten]
    exact sound_expand (sound_chainHost 16) (isOrdered_of_ofChars hread) hexpand
  have hdeep : Reader.nestingLimit < (Json.array [(tower 15).toJson]).nesting := by
    have htower := Join.eight_mul_depth_le_nesting (tower 15)
    rw [depth_tower] at htower
    simp only [Json.nesting, Json.itemsNesting, Reader.nestingLimit]
    omega
  rw [hwritten]
  refine ⟨hread, hexpand, hfloats, ?_⟩
  exact (hsound.rereads (by simp [FloatsReread, hfloats])).2 hdeep

end Document

end Semijoin
