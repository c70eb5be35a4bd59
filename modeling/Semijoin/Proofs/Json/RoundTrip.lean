import Semijoin.Proofs.Json.Placing

/-!
# Reading back what was written

The compact text of a sound value reads back as the same value, as long as its arrays and objects
nest no deeper than the reader allows. A value that nests deeper is refused for its nesting. Of
doubles it is assumed that their texts read back as they are.
-/

namespace Semijoin

namespace Reader

/-- Reading leads to a goal if what is read nests no deeper than allowed, and is refused for the
nesting if it does. -/
structure Reads (depth : Nat) (result goal : Except ReadFault Draft) : Prop where
  within : depth ≤ nestingLimit → result = goal
  beyond : nestingLimit < depth → ∃ position, result = .error ⟨.deepNesting, position⟩

namespace Reads

variable {depth depth' : Nat} {result middle goal : Except ReadFault Draft}

/-- Where the nesting is allowed, reading leads where it leads. -/
theorem of_eq (h : result = goal) (hdepth : depth ≤ nestingLimit) : Reads depth result goal where
  within _ := h
  beyond hlt := absurd hdepth (Nat.not_le_of_lt hlt)

/-- Of two parts that are read one after the other, the deeper one decides. -/
theorem trans (h : Reads depth result middle) (h' : Reads depth' middle goal) :
    Reads (max depth depth') result goal where
  within hle := (h.within (by omega)).trans (h'.within (by omega))
  beyond hlt := by
    by_cases hdepth : depth ≤ nestingLimit
    · obtain ⟨position, herror⟩ := h'.beyond (by omega)
      exact ⟨position, (h.within hdepth).trans herror⟩
    · exact h.beyond (by omega)

end Reads

/-- Reading takes a state past a text that nests to some depth, if a delimiter follows. -/
def Passes (depth : Nat) (state : State) (text : List Char) (state' : State) : Prop :=
  ∀ position rest, Delimited rest → ∃ position',
    Reads depth (strict.run position (.between state) (text ++ rest))
      (strict.run position' (.between state') rest)

namespace Passes

variable {depth depth' : Nat} {state middle state' : State} {text text' : List Char}

/-- Two texts may be read one after the other if the second begins with a delimiter. -/
theorem append (h : Passes depth state text middle) (h' : Passes depth' middle text' state')
    (hdelimited : ∀ rest, Delimited rest → Delimited (text' ++ rest)) :
    Passes (max depth depth') state (text ++ text') state' := by
  intro position rest hrest
  obtain ⟨position₁, hfirst⟩ := h position (text' ++ rest) (hdelimited rest hrest)
  obtain ⟨position₂, hsecond⟩ := h' position₁ rest hrest
  refine ⟨position₂, ?_⟩
  rw [List.append_assoc]
  exact hfirst.trans hsecond

/-- A character between scalars may stand in front of a text. -/
theorem cons {c : Char} (hblank : Grammar.isBlank c = false)
    (hmeet : ∀ position, meet .strict state position c = .ok (.on middle))
    (h : Passes depth middle text state') : Passes depth state (c :: text) state' := by
  intro position rest hrest
  obtain ⟨position', hreads⟩ := h (position.past c c.utf8Size) rest hrest
  refine ⟨position', ?_⟩
  rw [List.cons_append, run_on hblank position (hmeet position)]
  exact hreads

/-- A single character between scalars. -/
theorem single {c : Char} (hblank : Grammar.isBlank c = false)
    (hmeet : ∀ position, meet .strict state position c = .ok (.on state'))
    (hdepth : depth ≤ nestingLimit) : Passes depth state [c] state' := by
  intro position rest _
  exact ⟨_, .of_eq (run_on hblank position (hmeet position) rest) hdepth⟩

end Passes

/-- A state awaits a value, which is delivered to the outer containers. -/
def Awaits (state : State) (outer : List Frame) : Prop :=
  ∀ position c, c ≠ ']' → meet .strict state position c =
    meetValue .strict outer (position.past c 1) c

/-- A value is awaited where one stands alone. -/
theorem awaits_value (outer : List Frame) : Awaits ⟨outer, .value⟩ outer := fun _ _ _ => rfl

/-- A value is awaited behind the bracket of an array. -/
theorem awaits_firstItem (outer : List Frame) : Awaits ⟨outer, .firstItem⟩ (.items [] :: outer) :=
  fun _ _ hc => if_neg hc

/-- A value is awaited behind the comma between two elements. -/
theorem awaits_item (outer : List Frame) (before : List Draft) :
    Awaits ⟨outer, .item before⟩ (.items before :: outer) :=
  fun _ _ hc => if_neg hc

/-- What begins a scalar is no blank and no bracket. -/
theorem of_begin? {c : Char} {scan : Scan} (h : Scan.begin? c = some scan) :
    Grammar.isBlank c = false ∧ c ≠ '[' ∧ c ≠ '\x7b' ∧ c ≠ ']' := by
  refine ⟨?_, ?_, ?_, ?_⟩
  · rw [Bool.eq_false_iff]
    intro hblank
    simp only [Grammar.isBlank, Bool.or_eq_true, beq_iff_eq] at hblank
    rcases hblank with ((rfl | rfl) | rfl) | rfl <;> cases h
  · rintro rfl
    cases h
  · rintro rfl
    cases h
  · rintro rfl
    cases h

variable {state : State} {outer : List Frame}

/-- Where a value is awaited, a scalar begins with its first character. -/
theorem Awaits.meet_scalar (h : Awaits state outer) {c : Char} {scan : Scan}
    (hbegin : Scan.begin? c = some scan) (position : Position) :
    meet .strict state position c = .ok (.scalar (.value outer)) := by
  obtain ⟨-, hbracket, hbrace, hclose⟩ := of_begin? hbegin
  rw [h position c hclose, meetValue, if_neg hbracket, if_neg hbrace]
  rfl

/-- A text that is a scalar up to its last character. -/
theorem Awaits.passes_closed (h : Awaits state outer) (houter : outer.length ≤ nestingLimit)
    {first last : Char} {middle : List Char} {scan scan' : Scan} {value : Scalar}
    (hbegin : Scan.begin? first = some scan) (hfollow : scan.follow? middle = some scan')
    (hlast : scan'.step last = .last (.ok value)) :
    Passes outer.length state (first :: middle ++ [last]) (deliver outer (.scalar value)) := by
  intro position rest _
  have htext : first :: middle ++ [last] ++ rest = first :: (middle ++ last :: rest) := by simp
  have hstart := run_begin (of_begin? hbegin).1 position (h.meet_scalar hbegin position) hbegin
    (middle ++ last :: rest)
  rw [run_follow hfollow, run_last hlast fun _ => rfl] at hstart
  rw [htext]
  exact ⟨_, .of_eq hstart houter⟩

/-- A text that is a numeral. -/
theorem Awaits.passes_numeral (h : Awaits state outer) (houter : outer.length ≤ nestingLimit)
    {text : List Char} {number : Number} (hspells : Numeral.Spells text number) :
    Passes outer.length state text (deliver outer (.scalar (.number number))) := by
  obtain ⟨first, middle, scan, part, numeral, rfl, hbegin, hfollow, hcomplete, hnumber⟩ := hspells
  intro position rest hrest
  have hvalue : Scan.numeralValue numeral = .ok (.number number) := by
    rw [Scan.numeralValue, hnumber]
  have htake : ∀ behind, take .strict (.value outer) behind (Scan.numeralValue numeral) =
      .ok (deliver outer (.scalar (.number number))) := by
    intro behind
    rw [hvalue]
    rfl
  have hstart := run_begin (of_begin? hbegin).1 position (h.meet_scalar hbegin position) hbegin
    (middle ++ rest)
  rw [run_follow hfollow, run_numeral hcomplete htake _ hrest] at hstart
  exact ⟨_, .of_eq hstart houter⟩

/-- The quote behind the characters of a string ends it. -/
theorem step_quote (text : String) :
    (Scan.text (some (text.toList.reverse ++ []))).step '"' = .last (.ok (.string text)) := by
  rw [Scan.step, Scan.stepText, if_pos rfl, Scan.textValue, List.append_nil, List.reverse_reverse,
    String.ofList_toList]

/-- A string is read as it was written. -/
theorem Awaits.passes_string (h : Awaits state outer) (houter : outer.length ≤ nestingLimit)
    (text : String) :
    Passes outer.length state (Json.stringChars text) (deliver outer (.scalar (.string text))) :=
  h.passes_closed houter rfl (Scan.follow?_flatMap_charChars [] text.toList) (step_quote text)

/-- A key is read as it was written, and the text behind its colon is that of a value. -/
theorem passes_key {before : List (Draft.Key × Draft)} {depth : Nat} {state' : State}
    {text : List Char} (hmeet : ∀ position,
      meet .strict state position '"' = .ok (.scalar (.key outer before))) (key : String)
    (h : Passes depth ⟨.member before (.ok key) :: outer, .value⟩ text state') :
    Passes depth state (Json.stringChars key ++ ':' :: text) state' := by
  intro position rest hrest
  have htext : Json.stringChars key ++ ':' :: text ++ rest =
      '"' :: (key.toList.flatMap Json.charChars ++ '"' :: (':' :: text ++ rest)) := by
    simp [Json.stringChars]
  have hopen : Scan.begin? '"' = some (.text (some [])) := rfl
  have htake : ∀ behind, take .strict (.key outer before) behind (.ok (.string key)) =
      .ok ⟨outer, .colon before (.ok key)⟩ := fun _ => rfl
  have hcolon : Passes depth ⟨outer, .colon before (.ok key)⟩ (':' :: text) state' :=
    h.cons rfl fun _ => rfl
  have hstart := run_begin rfl position (hmeet position) hopen
    (key.toList.flatMap Json.charChars ++ '"' :: (':' :: text ++ rest))
  rw [run_follow (Scan.follow?_flatMap_charChars [] key.toList),
    run_last (step_quote key) htake] at hstart
  obtain ⟨position', hreads⟩ := hcolon _ rest hrest
  refine ⟨position', ?_⟩
  rw [htext, hstart]
  exact hreads

/-- A bracket that opens a container where a value is awaited. A container that lies too deep is
refused. -/
theorem Awaits.meet_open (h : Awaits state outer) {c : Char} {stage : Stage}
    (hopen : c = '[' ∧ stage = .firstItem ∨ c = '{' ∧ stage = .firstKey)
    (position : Position) :
    meet .strict state position c =
      if nestingLimit ≤ outer.length then .error ⟨.deepNesting, position.past c 1⟩
      else .ok (.on ⟨outer, stage⟩) := by
  rcases hopen with ⟨rfl, rfl⟩ | ⟨rfl, rfl⟩
  · rw [h position '[' (by decide), meetValue, if_pos rfl, openIn]
    split_ifs <;> rfl
  · rw [h position '{' (by decide), meetValue, if_neg (by decide), if_pos rfl, openIn]
    split_ifs <;> rfl

/-- A container reads as its content does behind the bracket that opens it. -/
theorem Awaits.passes_open (h : Awaits state outer) (houter : outer.length ≤ nestingLimit)
    {c : Char} {stage : Stage}
    (hopen : c = '[' ∧ stage = .firstItem ∨ c = '{' ∧ stage = .firstKey) {depth : Nat}
    (hdepth : outer.length < depth) {text : List Char} {state' : State}
    (hinside : outer.length < nestingLimit → Passes depth ⟨outer, stage⟩ text state') :
    Passes depth state (c :: text) state' := by
  have hblank : Grammar.isBlank c = false := by rcases hopen with ⟨rfl, -⟩ | ⟨rfl, -⟩ <;> rfl
  by_cases hlimit : nestingLimit ≤ outer.length
  · intro position rest _
    refine ⟨position, fun hle => by omega, fun _ => ⟨position.past c 1, ?_⟩⟩
    have hmeet := h.meet_open hopen position
    rw [if_pos hlimit] at hmeet
    have hstep : strict.step position (.between state) c =
        .error ⟨.deepNesting, position.past c 1⟩ := by
      change (if Grammar.isBlank c then _ else _) = _
      rw [hblank, if_neg Bool.false_ne_true]
      change (meet .strict state position c >>= _) = _
      rw [hmeet]
      rfl
    rw [List.cons_append, Grammar.run, hstep]
    rfl
  · refine (hinside (by omega)).cons hblank fun position => ?_
    have hmeet := h.meet_open hopen position
    rwa [if_neg hlimit] at hmeet

/-- A bracket closes a container that does not lie too deep. -/
theorem closeIn_eq (houter : outer.length < nestingLimit) (draft : Draft) (behind : Position) :
    closeIn .strict outer draft behind = .ok (.on (deliver outer draft)) := by
  rw [closeIn, if_neg (by omega)]
  rfl

end Reader

open Reader

namespace Json

/-- The compact text of an array that is not empty. -/
theorem chars_array_cons (depth : Nat) (item : Json) (rest : List Json) :
    (array (item :: rest)).chars .compact depth =
      '[' :: (item.chars .compact (depth + 1) ++
        (itemsChars .compact (depth + 1) rest ++ [']'])) := by
  simp [chars, Layout.lineBreak]

/-- The compact text of an object that is not empty. -/
theorem chars_object_cons (depth : Nat) (key : String) (value : Json)
    (rest : List (String × Json)) :
    (object ((key, value) :: rest)).chars .compact depth =
      '\x7b' :: (stringChars key ++ ':' :: (value.chars .compact (depth + 1) ++
        (membersChars .compact (depth + 1) rest ++ ['\x7d']))) := by
  simp [chars, Layout.lineBreak, Layout.colon]

/-- The compact text of further elements. -/
theorem itemsChars_cons (depth : Nat) (item : Json) (rest : List Json) :
    itemsChars .compact depth (item :: rest) ++ [']'] =
      ',' :: (item.chars .compact depth ++ (itemsChars .compact depth rest ++ [']'])) := by
  simp [itemsChars, Layout.lineBreak]

/-- The compact text of further members. -/
theorem membersChars_cons (depth : Nat) (key : String) (value : Json)
    (rest : List (String × Json)) :
    membersChars .compact depth ((key, value) :: rest) ++ ['\x7d'] =
      ',' :: (stringChars key ++ ':' :: (value.chars .compact depth ++
        (membersChars .compact depth rest ++ ['\x7d']))) := by
  simp [membersChars, Layout.lineBreak, Layout.colon]

/-- What follows an element is a delimiter. -/
theorem delimited_itemsChars (depth : Nat) (items : List Json) (rest : List Char) :
    Delimited (itemsChars .compact depth items ++ [']'] ++ rest) := by
  intro c hc
  cases items with
  | nil => exact .inr (.inl (Option.some.inj hc).symm)
  | cons item items =>
    rw [itemsChars_cons] at hc
    exact .inl (Option.some.inj hc).symm

/-- What follows the value of a member is a delimiter. -/
theorem delimited_membersChars (depth : Nat) (members : List (String × Json)) (rest : List Char) :
    Delimited (membersChars .compact depth members ++ ['\x7d'] ++ rest) := by
  intro c hc
  cases members with
  | nil => exact .inr (.inr (Option.some.inj hc).symm)
  | cons member members =>
    rw [membersChars_cons] at hc
    exact .inl (Option.some.inj hc).symm

mutual

/-- Where a value is awaited, a sound value is read as it was written. -/
theorem passes_chars (depth : Nat) : (value : Json) → value.Sound →
    (∀ bits ∈ value.floats, Numeral.Spells (Number.floatChars bits) (.float bits)) →
    ∀ {state : State} {outer : List Frame}, Awaits state outer → outer.length ≤ nestingLimit →
      Passes (outer.length + value.nesting) state (value.chars .compact depth)
        (deliver outer value.draft)
  | .null, _, _, _, _, hawaits, houter =>
    hawaits.passes_closed houter (rfl : Scan.begin? 'n' = some _)
      (rfl : Scan.follow? _ ['u', 'l'] = some _) (rfl : Scan.step _ 'l' = .last (.ok .null))
  | .bool true, _, _, _, _, hawaits, houter =>
    hawaits.passes_closed houter (rfl : Scan.begin? 't' = some _)
      (rfl : Scan.follow? _ ['r', 'u'] = some _) (rfl : Scan.step _ 'e' = .last (.ok (.bool true)))
  | .bool false, _, _, _, _, hawaits, houter =>
    hawaits.passes_closed houter (rfl : Scan.begin? 'f' = some _)
      (rfl : Scan.follow? _ ['a', 'l', 's'] = some _)
      (rfl : Scan.step _ 'e' = .last (.ok (.bool false)))
  | .number (.integer value), hsound, _, _, _, hawaits, houter =>
    hawaits.passes_numeral houter (Number.spells_integer hsound)
  | .number (.float bits), _, hfloats, _, _, hawaits, houter =>
    hawaits.passes_numeral houter (hfloats bits List.mem_cons_self)
  | .string text, _, _, _, _, hawaits, houter => hawaits.passes_string houter text
  | .array [], _, _, _, outer, hawaits, houter => by
    refine hawaits.passes_open houter (.inl ⟨rfl, rfl⟩) (Nat.lt_succ_self _) fun hlimit => ?_
    exact .single rfl (fun position => closeIn_eq hlimit _ _) hlimit
  | .array (item :: rest), hsound, hfloats, _, outer, hawaits, houter => by
    rw [chars_array_cons]
    have hdepth : outer.length + (array (item :: rest)).nesting =
        max (outer.length + 1 + item.nesting) (outer.length + 1 + itemsNesting rest) := by
      rw [nesting, itemsNesting]
      omega
    refine hawaits.passes_open houter (.inl ⟨rfl, rfl⟩) (by omega) fun hlimit => ?_
    have hitem := passes_chars (depth + 1) item hsound.1
      (fun bits hbits => hfloats bits (List.mem_append_left _ hbits)) (awaits_firstItem outer)
      hlimit
    have hrest := passes_itemsChars (depth + 1) rest hsound.2
      (fun bits hbits => hfloats bits (List.mem_append_right _ hbits)) [item.draft] hlimit
    rw [hdepth]
    exact hitem.append hrest fun rest' _ => delimited_itemsChars _ _ rest'
  | .object [], _, _, _, outer, hawaits, houter => by
    refine hawaits.passes_open houter (.inr ⟨rfl, rfl⟩) (Nat.lt_succ_self _) fun hlimit => ?_
    exact .single rfl (fun position => closeIn_eq hlimit _ _) hlimit
  | .object ((key, held) :: rest), hsound, hfloats, _, outer, hawaits, houter => by
    rw [chars_object_cons]
    have hdepth : outer.length + (object ((key, held) :: rest)).nesting =
        max (outer.length + 1 + held.nesting) (outer.length + 1 + membersNesting rest) := by
      rw [nesting, membersNesting]
      omega
    refine hawaits.passes_open houter (.inr ⟨rfl, rfl⟩) (by omega) fun hlimit => ?_
    have hheld := passes_chars (depth + 1) held hsound.2.1
      (fun bits hbits => hfloats bits (List.mem_append_left _ hbits))
      (awaits_value (.member [] (.ok key) :: outer)) hlimit
    have hrest := passes_membersChars (depth + 1) rest hsound.2.2
      (fun bits hbits => hfloats bits (List.mem_append_right _ hbits)) [(.ok key, held.draft)]
      hlimit
    rw [hdepth]
    exact passes_key (fun _ => rfl) key
      (hheld.append hrest fun rest' _ => delimited_membersChars _ _ rest')

/-- The further elements of an array are read as they were written. -/
theorem passes_itemsChars (depth : Nat) : (items : List Json) → ItemsSound items →
    (∀ bits ∈ itemsFloats items, Numeral.Spells (Number.floatChars bits) (.float bits)) →
    ∀ {outer : List Frame} (before : List Draft), outer.length < nestingLimit →
      Passes (outer.length + 1 + itemsNesting items) ⟨outer, .afterItem before⟩
        (itemsChars .compact depth items ++ [']'])
        (deliver outer (.array (before.reverse ++ itemsDraft items)))
  | [], _, _, _, before, houter => by
    rw [itemsDraft, List.append_nil]
    exact .single rfl (fun position => closeIn_eq houter _ _) houter
  | item :: rest, hsound, hfloats, outer, before, houter => by
    rw [itemsChars_cons]
    have hdepth : outer.length + 1 + itemsNesting (item :: rest) =
        max (outer.length + 1 + item.nesting) (outer.length + 1 + itemsNesting rest) := by
      rw [itemsNesting]
      omega
    have hitem := passes_chars depth item hsound.1
      (fun bits hbits => hfloats bits (List.mem_append_left _ hbits)) (awaits_item outer before)
      houter
    have hrest := passes_itemsChars depth rest hsound.2
      (fun bits hbits => hfloats bits (List.mem_append_right _ hbits)) (item.draft :: before)
      houter
    rw [List.reverse_cons, List.append_assoc] at hrest
    rw [hdepth]
    exact (hitem.append hrest fun rest' _ => delimited_itemsChars _ _ rest').cons rfl
      fun _ => rfl

/-- The further members of an object are read as they were written. -/
theorem passes_membersChars (depth : Nat) : (members : List (String × Json)) →
    MembersSound members →
    (∀ bits ∈ membersFloats members, Numeral.Spells (Number.floatChars bits) (.float bits)) →
    ∀ {outer : List Frame} (before : List (Draft.Key × Draft)), outer.length < nestingLimit →
      Passes (outer.length + 1 + membersNesting members) ⟨outer, .afterMember before⟩
        (membersChars .compact depth members ++ ['\x7d'])
        (deliver outer (.object (before.reverse ++ membersDraft members)))
  | [], _, _, _, before, houter => by
    rw [membersDraft, List.append_nil]
    exact .single rfl (fun position => closeIn_eq houter _ _) houter
  | (key, held) :: rest, hsound, hfloats, outer, before, houter => by
    rw [membersChars_cons]
    have hdepth : outer.length + 1 + membersNesting ((key, held) :: rest) =
        max (outer.length + 1 + held.nesting) (outer.length + 1 + membersNesting rest) := by
      rw [membersNesting]
      omega
    have hheld := passes_chars depth held hsound.1
      (fun bits hbits => hfloats bits (List.mem_append_left _ hbits))
      (awaits_value (.member before (.ok key) :: outer)) houter
    have hrest := passes_membersChars depth rest hsound.2
      (fun bits hbits => hfloats bits (List.mem_append_right _ hbits))
      ((.ok key, held.draft) :: before) houter
    rw [List.reverse_cons, List.append_assoc] at hrest
    rw [hdepth]
    have hkey : Passes _ ⟨outer, .key before⟩ _ _ := passes_key (fun _ => rfl) key
      (hheld.append hrest fun rest' _ => delimited_membersChars _ _ rest')
    exact hkey.cons rfl fun _ => rfl

end

/-- **Reading back what was written.** A sound value reads back from its compact text if its
arrays and objects nest no deeper than the reader allows. Otherwise its text is refused for the
nesting. -/
theorem ofChars_chars {value : Json} (hsound : value.Sound)
    (hfloats : ∀ bits ∈ value.floats,
      Numeral.Spells (Number.floatChars bits) (.float bits)) :
    (value.nesting ≤ nestingLimit → ofChars (value.chars .compact 0) = .ok value) ∧
    (nestingLimit < value.nesting → ∃ position,
      ofChars (value.chars .compact 0) = .error ⟨.deepNesting, position⟩) := by
  obtain ⟨position', hreads⟩ := passes_chars 0 value hsound hfloats (awaits_value []) (by decide)
    .start [] (fun c hc => by cases hc)
  rw [List.length_nil, Nat.zero_add, List.append_nil] at hreads
  constructor
  · intro hle
    have hread : Draft.ofChars .strict (value.chars .compact 0) = .ok value.draft :=
      hreads.within hle
    rw [ofChars, hread]
    exact toJson_draft value hsound
  · intro hlt
    obtain ⟨position, herror⟩ := hreads.beyond hlt
    have hread : Draft.ofChars .strict (value.chars .compact 0) =
        .error ⟨.deepNesting, position⟩ := herror
    exact ⟨position, by rw [ofChars, hread]; rfl⟩

end Json

end Semijoin
