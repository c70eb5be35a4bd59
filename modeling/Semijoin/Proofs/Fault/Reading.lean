import Semijoin.Proofs.Document.Turn
import Semijoin.Proofs.Fault.Showing
import Semijoin.Proofs.Specification.Acceptance

/-!
# The faults found in reading

Readers are given the place of the value that they read, and go on to the places of its parts. Every
fault that they find is shown by the document in which the value stands.
-/

namespace Semijoin

open Json FaultsAre

variable {document : Json} {part inner : Part} {place : Pointer} {value : Json}

/-- The first of the elements from a position on is the element at this position. -/
theorem getElem?_of_drop_eq_cons {α : Type} {values rest : List α} {position : Nat} {value : α}
    (h : values.drop position = value :: rest) :
    values[position]? = some value ∧ values.drop (position + 1) = rest := by
  rw [← List.head?_drop, ← List.tail_drop, h]
  exact ⟨rfl, rfl⟩

/-- A fault is shown by the value at its place. -/
theorem Fault.shownIn_of {fault : Fault} (hplace : fault.place? = some place)
    (hvalue : place.resolve? document = some value) (h : fault.Shown document place value) :
    fault.ShownIn document := by
  intro other hother
  cases hplace.symm.trans hother
  exact ⟨value, hvalue, h⟩

/-- A fault that is thrown at a part is shown by the part. -/
theorem Part.StandsAt.shownIn_throw {α : Type} {fault : Fault}
    (hstands : part.StandsAt document place value) (hplace : fault.place? = some place)
    (h : fault.Shown document place value) :
    FaultsAre (Fault.ShownIn document) (MonadExcept.throw fault : Except Fault α) :=
  throw (Fault.shownIn_of hplace hstands.resolve? h)

namespace Field

variable {members : List (String × Json)} {field : String}

/-- What is found in a field stands there, and is not null. -/
theorem lookup_of_find? (h : find? members field = some value) :
    members.lookup field = some value ∧ value ≠ .null := by
  unfold find? at h
  cases hlookup : members.lookup field with
  | none =>
    rw [hlookup] at h
    cases h
  | some found =>
    rw [hlookup] at h
    cases found with
    | null => cases h
    | _ =>
      cases h
      exact ⟨rfl, nofun⟩

/-- Where nothing is found in a field, it is absent or null. -/
theorem lookup_of_find?_eq_none (h : find? members field = none) :
    members.lookup field = none ∨ members.lookup field = some .null := by
  unfold find? at h
  cases hlookup : members.lookup field with
  | none => exact .inl rfl
  | some found =>
    rw [hlookup] at h
    cases found with
    | null => exact .inr rfl
    | _ => cases h

/-- The faults in reading elements are shown if those of the elements are. -/
theorem shownIn_items {α : Type} {read : Pointer → Json → Except Fault α} {values : List Json}
    (hstands : part.StandsAt document place (.array values)) (hpart : part.element? = some inner)
    (h : ∀ position value, inner.StandsAt document (place.index position) value →
      FaultsAre (Fault.ShownIn document) (read (place.index position) value)) {position : Nat}
    {rest : List Json}
    (hrest : values.drop position = rest) :
    FaultsAre (Fault.ShownIn document) (items read place position rest) := by
  induction rest generalizing position with
  | nil => exact pure []
  | cons value rest ih =>
    obtain ⟨hvalue, htail⟩ := getElem?_of_drop_eq_cons hrest
    exact bind (h _ value (.element hstands hvalue hpart)) fun first _ =>
      bind (ih htail) fun others _ => pure _

variable (hstands : part.StandsAt document place (.object members))
include hstands

/-- A fault in reading a text is shown. -/
theorem shownIn_text? (hpart : (field, .text) ∈ part.members) :
    FaultsAre (Fault.ShownIn document) (text? members field place) := by
  unfold text?
  split
  · exact pure _
  · exact pure _
  · rename_i found hnot hfind
    obtain ⟨hlookup, hnull⟩ := lookup_of_find? hfind
    have hfield := hstands.member hlookup hpart
    refine hfield.shownIn_throw rfl ⟨hfield, ⟨place, rfl⟩, hnull, ?_⟩
    rintro ⟨text, rfl⟩
    exact hnot text rfl

/-- A fault in reading texts is shown. -/
theorem shownIn_texts (hpart : (field, .texts) ∈ part.members) :
    FaultsAre (Fault.ShownIn document) (Field.texts members field place) := by
  unfold Field.texts
  split
  · exact pure _
  · exact pure _
  · rename_i values hfind
    have hvalues := hstands.member (lookup_of_find? hfind).1 hpart
    refine shownIn_items hvalues rfl (fun position value hentry => ?_) List.drop_zero
    unfold entry
    split
    · exact pure _
    · rename_i hnot
      refine hentry.shownIn_throw rfl ⟨hentry, ⟨_, position, ⟨place, rfl⟩, rfl⟩, ?_⟩
      rintro ⟨text, rfl⟩
      exact hnot text rfl
  · rename_i found hnoText hnoArray hfind
    obtain ⟨hlookup, hnull⟩ := lookup_of_find? hfind
    have hfield := hstands.member hlookup hpart
    refine hfield.shownIn_throw rfl ⟨hfield, ⟨place, rfl⟩, hnull, ?_, ?_⟩
    · rintro ⟨text, rfl⟩
      exact hnoText text rfl
    · rintro ⟨items, rfl⟩
      exact hnoArray items rfl

/-- A fault in reading a truth value is shown. -/
theorem shownIn_flag (hpart : (field, .flag) ∈ part.members) :
    FaultsAre (Fault.ShownIn document) (Field.flag members field place) := by
  unfold Field.flag
  split
  · exact pure _
  · exact pure _
  · rename_i found hnot hfind
    obtain ⟨hlookup, hnull⟩ := lookup_of_find? hfind
    have hfield := hstands.member hlookup hpart
    refine hfield.shownIn_throw rfl ⟨hfield, ⟨place, rfl⟩, hnull, ?_⟩
    rintro ⟨flag, rfl⟩
    exact hnot flag rfl

end Field

/-- A fault in reading a limit is shown. -/
theorem TermsLimit.shownIn_read {members : List (String × Json)} {field : String}
    (hstands : part.StandsAt document place (.object members))
    (hpart : (field, .limit) ∈ part.members) :
    FaultsAre (Fault.ShownIn document) (TermsLimit.read members field place) := by
  unfold TermsLimit.read
  split
  · exact pure _
  · rename_i raw hfind
    split
    · exact pure _
    · rename_i hraw
      obtain ⟨hlookup, hnull⟩ := Field.lookup_of_find? hfind
      have hfield := hstands.member hlookup hpart
      refine hfield.shownIn_throw rfl ⟨hfield, ⟨place, rfl⟩, hnull, ?_⟩
      rintro ⟨limit, hlimit, hrange⟩
      cases hlimit
      rw [← isSome_ofInt?_iff, hraw] at hrange
      cases hrange
  · rename_i found hnot hfind
    obtain ⟨hlookup, hnull⟩ := Field.lookup_of_find? hfind
    have hfield := hstands.member hlookup hpart
    refine hfield.shownIn_throw rfl ⟨hfield, ⟨place, rfl⟩, hnull, ?_⟩
    rintro ⟨limit, rfl, -⟩
    exact hnot limit rfl

/-- A fault in reading clauses is shown. -/
theorem Clause.shownIn_readAll (hstands : Part.clauses.StandsAt document place value) :
    FaultsAre (Fault.ShownIn document) (readAll place value) := by
  unfold readAll
  split
  · exact pure _
  · refine Field.shownIn_items hstands rfl (fun position value hclause => ?_) List.drop_zero
    unfold read
    split
    · exact pure _
    · rename_i hnot
      refine hclause.shownIn_throw rfl ⟨hclause, ?_⟩
      rintro ⟨members, rfl⟩
      exact hnot members rfl
  · rename_i hnull hnot
    refine hstands.shownIn_throw rfl ⟨hstands, hnull, ?_⟩
    rintro ⟨items, rfl⟩
    exact hnot items rfl

/-- A fault in reading the clauses of a field is shown. -/
theorem Clause.shownIn_readAll_getD {members : List (String × Json)} {field : String}
    (hstands : part.StandsAt document place (.object members))
    (hpart : (field, .clauses) ∈ part.members) :
    FaultsAre (Fault.ShownIn document)
      (readAll (place.key field) ((members.lookup field).getD .null)) := by
  cases hlookup : members.lookup field with
  | none => exact ok _
  | some value => exact shownIn_readAll (hstands.member hlookup hpart)

namespace Endpoint

/-- A path that is missing is absent, null or empty. -/
theorem lookup_of_text?_eq_none {members : List (String × Json)} {field : String}
    (h : Field.text? members field place = .ok none) :
    members.lookup field = none ∨ members.lookup field = some .null ∨
      members.lookup field = some (.string "") := by
  unfold Field.text? at h
  split at h
  · rename_i hfind
    exact (Field.lookup_of_find?_eq_none hfind).imp_right .inl
  · rename_i text hfind
    split at h
    · rename_i hempty
      rw [← String.isEmpty_iff.mp hempty]
      exact .inr (.inr (Field.lookup_of_find? hfind).1)
    · cases h
  · cases h

/-- A fault in reading a path is shown. -/
theorem shownIn_readPath {members : List (String × Json)}
    (hstands : Part.endpoint.StandsAt document place (.object members)) :
    FaultsAre (Fault.ShownIn document) (readPath members place) := by
  refine bind (Field.shownIn_text? hstands (by decide)) fun path hpath => ?_
  cases path with
  | some path => exact pure path
  | none =>
    refine hstands.shownIn_throw rfl
      ⟨.endpoint, members, hstands, List.mem_singleton_self _, rfl, ?_⟩
    exact (lookup_of_text?_eq_none hpath).imp_right (.imp_right fun h => ⟨rfl, h⟩)

/-- A fault in reading an endpoint is shown. -/
theorem shownIn_read (hordered : document.IsOrdered)
    (hstands : Part.endpoint.StandsAt document place value) :
    FaultsAre (Fault.ShownIn document) (read place value) := by
  unfold read
  split
  · rename_i members
    split
    · rename_i field found hfind
      refine hstands.shownIn_throw rfl ⟨hstands, members, rfl, ?_, ?_, ?_⟩
      · simpa using List.find?_some hfind
      · exact List.mem_map_of_mem (List.mem_of_find?_eq_some hfind)
      · -- The keys are in order, so the first unknown one is the smallest.
        obtain ⟨-, before, after, rfl, hbefore⟩ := List.find?_eq_some_iff_append.mp hfind
        have hkeys : KeysOrdered _ := (hordered.resolve? hstands.resolve?).1
        rintro _ hkey hunknown
        obtain ⟨other, hother, rfl⟩ := List.mem_map.mp hkey
        rcases List.mem_append.mp hother with hother | hother
        · have hknown := hbefore other hother
          exact absurd (by simpa using hknown) hunknown
        · rcases List.mem_cons.mp hother with rfl | hother
          · exact String.le_refl _
          · have hlt : field < other.1 :=
              (List.pairwise_cons.mp (List.pairwise_append.mp hkeys).2.1).1 other hother
            exact String.not_lt.mp fun hgt => String.lt_irrefl _ (String.lt_trans hlt hgt)
    · refine bind (shownIn_readPath hstands) fun path _ => ?_
      refine bind (Field.shownIn_texts hstands (by decide)) fun indices _ => ?_
      refine bind (Field.shownIn_texts hstands (by decide)) fun types _ => ?_
      refine bind (Field.shownIn_text? hstands (by decide)) fun orderBy _ => ?_
      refine bind (TermsLimit.shownIn_read hstands (by decide)) fun limit _ => ?_
      refine bind (Field.shownIn_text? hstands (by decide)) fun encoding _ => ?_
      exact bind (Clause.shownIn_readAll_getD hstands (by decide)) fun queries _ => pure _
  · rename_i hnot
    refine hstands.shownIn_throw rfl ⟨hstands, ?_⟩
    rintro ⟨members, rfl⟩
    exact hnot members rfl

/-- A fault in reading a pair of endpoints is shown. -/
theorem shownIn_readPair (hordered : document.IsOrdered)
    (hstands : Part.pair.StandsAt document place value) :
    FaultsAre (Fault.ShownIn document) (readPair place value) := by
  unfold readPair
  split
  · exact bind (shownIn_read hordered (hstands.element rfl rfl)) fun first _ =>
      bind (shownIn_read hordered (hstands.element rfl rfl)) fun second _ => pure _
  · rename_i hnot
    exact hstands.shownIn_throw rfl ⟨hstands, hnot⟩

end Endpoint

/-- A fault in reading a relation of a graph is shown. -/
theorem Edge.shownIn_read (hordered : document.IsOrdered)
    (hstands : Part.edge.StandsAt document place value) :
    FaultsAre (Fault.ShownIn document) (Edge.read place value) := by
  unfold Edge.read
  split
  · exact bind (Endpoint.shownIn_readPair hordered hstands.bare) fun pair _ => pure _
  · split
    · rename_i hlookup
      exact hstands.shownIn_throw rfl
        ⟨.edge, _, hstands, List.mem_singleton_self _, rfl, .inl hlookup⟩
    · rename_i members endpoints hlookup
      refine bind (Field.shownIn_flag hstands (by decide)) fun negate _ => ?_
      exact bind (Endpoint.shownIn_readPair hordered (hstands.member hlookup (by decide)))
        fun pair _ => pure _
  · rename_i hnoArray hnoObject
    refine hstands.shownIn_throw rfl ⟨hstands, ?_, ?_⟩
    · rintro ⟨items, rfl⟩
      exact hnoArray items rfl
    · rintro ⟨members, rfl⟩
      exact hnoObject members rfl

namespace Graph

variable {members : List (String × Json)}
  (hstands : Part.graph.StandsAt document place (.object members))
include hstands

/-- A fault in reading a focus is shown. -/
theorem shownIn_readFocus : FaultsAre (Fault.ShownIn document) (readFocus members place) := by
  unfold readFocus
  split
  · rename_i hfind
    refine hstands.shownIn_throw rfl ⟨.graph, members, hstands, by decide, rfl, ?_⟩
    exact (Field.lookup_of_find?_eq_none hfind).imp_right .inl
  · exact pure _
  · rename_i found hnot hfind
    obtain ⟨hlookup, hnull⟩ := Field.lookup_of_find? hfind
    have hfield : Part.text.StandsAt _ _ _ := hstands.member hlookup (by decide)
    refine hfield.shownIn_throw rfl ⟨hfield, ⟨place, rfl⟩, hnull, ?_⟩
    rintro ⟨text, rfl⟩
    exact hnot text rfl

/-- A fault in reading relations is shown. -/
theorem shownIn_readRelations (hordered : document.IsOrdered) :
    FaultsAre (Fault.ShownIn document) (readRelations members place) := by
  unfold readRelations
  split
  · rename_i hfind
    refine hstands.shownIn_throw rfl ⟨.graph, members, hstands, by decide, rfl, ?_⟩
    exact (Field.lookup_of_find?_eq_none hfind).imp_right .inl
  · rename_i relations hfind
    have hrelations : Part.relations.StandsAt _ _ _ :=
      hstands.member (Field.lookup_of_find? hfind).1 (by decide)
    exact Field.shownIn_items hrelations rfl (fun _ _ hedge => Edge.shownIn_read hordered hedge)
      List.drop_zero
  · rename_i found hnot hfind
    obtain ⟨hlookup, hnull⟩ := Field.lookup_of_find? hfind
    have hrelations : Part.relations.StandsAt _ _ _ := hstands.member hlookup (by decide)
    refine hrelations.shownIn_throw rfl ⟨hrelations, hnull, ?_⟩
    rintro ⟨items, rfl⟩
    exact hnot items rfl

/-- A fault in reading clauses by index is shown. -/
theorem shownIn_readQueries (hordered : document.IsOrdered) :
    FaultsAre (Fault.ShownIn document) (readQueries members place) := by
  unfold readQueries
  split
  · exact pure _
  · rename_i byIndex hfind
    have hqueries : Part.clausesByIndex.StandsAt _ _ _ :=
      hstands.member (Field.lookup_of_find? hfind).1 (by decide)
    have hkeys : KeysOrdered byIndex := (hordered.resolve? hqueries.resolve?).1
    refine mapM fun entry hentry => bind ?_ fun clauses _ => pure _
    exact Clause.shownIn_readAll (hqueries.byIndex (hkeys.lookup_of_mem hentry))
  · rename_i found hnot hfind
    obtain ⟨hlookup, hnull⟩ := Field.lookup_of_find? hfind
    have hqueries : Part.clausesByIndex.StandsAt _ _ _ := hstands.member hlookup (by decide)
    refine hqueries.shownIn_throw rfl ⟨hqueries, hnull, ?_⟩
    rintro ⟨items, rfl⟩
    exact hnot items rfl

end Graph

/-- A relation tells the place that it was read from. -/
theorem Edge.origin_of_read {edge : Edge} (h : Edge.read place value = .ok edge) :
    edge.origin = place := by
  unfold Edge.read at h
  split at h
  · obtain ⟨_, -, h⟩ := bind_eq_ok h
    cases h
    rfl
  · split at h
    · cases h
    · obtain ⟨_, -, h⟩ := bind_eq_ok h
      obtain ⟨_, -, h⟩ := bind_eq_ok h
      cases h
      rfl
  · cases h

/-- Each result of reading elements comes from the element at its position. -/
theorem Field.getElem?_of_items {α : Type} {read : Pointer → Json → Except Fault α}
    {position : Nat} {values : List Json} {results : List α}
    (h : items read place position values = .ok results) {offset : Nat} {result : α}
    (hresult : results[offset]? = some result) :
    ∃ value, values[offset]? = some value ∧
      read (place.index (position + offset)) value = .ok result := by
  induction values generalizing position results offset with
  | nil =>
    cases h
    cases hresult
  | cons value rest ih =>
    obtain ⟨first, hfirst, h⟩ := bind_eq_ok h
    obtain ⟨others, hothers, h⟩ := bind_eq_ok h
    cases h
    cases offset with
    | zero =>
      cases hresult
      exact ⟨value, rfl, hfirst⟩
    | succ offset =>
      obtain ⟨found, hfound, hread⟩ := ih hothers hresult
      refine ⟨found, hfound, ?_⟩
      rwa [Nat.add_assoc, Nat.add_comm 1] at hread

/-- There is one result for each element that is read. -/
theorem Field.length_items {α : Type} {read : Pointer → Json → Except Fault α} {position : Nat}
    {values : List Json} {results : List α} (h : items read place position values = .ok results) :
    results.length = values.length := by
  induction values generalizing position results with
  | nil =>
    cases h
    rfl
  | cons value rest ih =>
    obtain ⟨first, -, h⟩ := bind_eq_ok h
    obtain ⟨others, hothers, h⟩ := bind_eq_ok h
    cases h
    exact congrArg (· + 1) (ih hothers)

namespace Graph

/-- The relations of a graph stand where they say. -/
theorem exists_of_mem_relations {members : List (String × Json)} {edges : List Edge}
    (h : readRelations members place = .ok edges) {edge : Edge} (hedge : edge ∈ edges) :
    ∃ relations position relation, members.lookup "relations" = some (.array relations) ∧
      relations[position]? = some relation ∧
      edge.origin = (place.key "relations").index position ∧
      Edge.read edge.origin relation = .ok edge := by
  obtain ⟨relations, hrelations, hitems⟩ := readRelations_eq_ok_iff.mp h
  obtain ⟨position, hposition⟩ := List.getElem?_of_mem hedge
  obtain ⟨relation, hrelation, hread⟩ := Field.getElem?_of_items hitems hposition
  rw [Nat.zero_add] at hread
  have horigin := Edge.origin_of_read hread
  exact ⟨relations, position, relation, hrelations, hrelation, horigin, horigin ▸ hread⟩

/-- A loop that a graph is refused for is shown. -/
theorem shownIn_check {members : List (String × Json)}
    (hstands : Part.graph.StandsAt document place (.object members)) {graph : Graph}
    (hread : readRelations members place = .ok graph.relations) :
    FaultsAre (Fault.ShownIn document) graph.check := by
  refine forM fun edge hedge => ?_
  cases hloop : edge.loop? with
  | none => exact pure ()
  | some index =>
    obtain ⟨relations, position, relation, hrelations, hrelation, horigin, hread⟩ :=
      exists_of_mem_relations hread hedge
    have hfield : Part.relations.StandsAt _ _ _ := hstands.member hrelations (by decide)
    have hfound : Part.edge.StandsAt _ _ _ := hfield.element hrelation rfl
    rw [← horigin] at hfound
    obtain ⟨first, second, hwritten, hfirst, hsecond⟩ := Edge.exists_of_read hread
    rw [Edge.loop?, hfirst.index?, hsecond.index?] at hloop
    split at hloop
    · rename_i hsame
      exact hfound.shownIn_throw rfl ⟨hfound, first, second, hwritten, hloop, hsame ▸ hloop⟩
    · cases hloop

/-- A fault in reading a graph is shown. -/
theorem shownIn_read (hordered : document.IsOrdered)
    (hstands : Part.graph.StandsAt document place value) :
    FaultsAre (Fault.ShownIn document) (read place value) := by
  unfold read
  split
  · refine bind (shownIn_readFocus hstands) fun focus _ => ?_
    refine bind (shownIn_readRelations hstands hordered) fun relations hrelations => ?_
    refine bind (shownIn_readQueries hstands hordered) fun queries _ => ?_
    exact bind (shownIn_check hstands hrelations) fun _ _ => pure _
  · rename_i hnot
    refine hstands.shownIn_throw rfl ⟨hstands, ?_⟩
    rintro ⟨members, rfl⟩
    exact hnot members rfl

end Graph

/-- A fault in reading a relation of a chain is shown. -/
theorem Hop.shownIn_read (hordered : document.IsOrdered) {members : List (String × Json)}
    (hstands : Part.hop.StandsAt document place (.object members)) :
    FaultsAre (Fault.ShownIn document) (Hop.read members place) := by
  unfold Hop.read
  split
  · rename_i hlookup
    exact hstands.shownIn_throw rfl
      ⟨.hop, members, hstands, List.mem_singleton_self _, rfl, .inl hlookup⟩
  · rename_i endpoints hlookup
    refine bind (Endpoint.shownIn_readPair hordered (hstands.member hlookup (by decide)))
      fun pair _ => ?_
    exact bind (Field.shownIn_flag hstands (by decide)) fun negate _ => pure _

end Semijoin
