import Semijoin.Json.Ordered
import Semijoin.Proofs.Json.Sound
import Mathlib.Tactic.SplitIfs

/-!
# What is read is sound

The significand of a numeral always fits a machine word, so every integer that is read has machine
size. The reader keeps this of all that it has read so far, at every character.
-/

namespace Semijoin

/-- The number in a scalar is sound. -/
def Scalar.Sound : Scalar → Prop
  | .number value => value.Sound
  | .null | .bool _ | .string _ => True

namespace Draft

mutual

/-- All numbers in a draft are sound. -/
def Sound : Draft → Prop
  | .scalar value => value.Sound
  | .array items => ItemsSound items
  | .object members => MembersSound members
  | .flawed _ => True

/-- All numbers in some drafts are sound. -/
def ItemsSound : List Draft → Prop
  | [] => True
  | item :: rest => item.Sound ∧ ItemsSound rest

/-- All numbers in the values of some members are sound. -/
def MembersSound : List (Key × Draft) → Prop
  | [] => True
  | (_, value) :: rest => value.Sound ∧ MembersSound rest

end

/-- Drafts are sound one by one. -/
theorem itemsSound_iff {items : List Draft} : ItemsSound items ↔ ∀ item ∈ items, item.Sound :=
  Json.iff_forall_mem trivial fun _ _ => .rfl

/-- The values of members are sound one by one. -/
theorem membersSound_iff {members : List (Key × Draft)} :
    MembersSound members ↔ ∀ member ∈ members, member.2.Sound :=
  Json.iff_forall_mem trivial fun _ _ => .rfl

/-- Sound drafts are sound in the opposite order. -/
theorem itemsSound_reverse {items : List Draft} (h : ItemsSound items) :
    ItemsSound items.reverse := by
  rw [itemsSound_iff] at h ⊢
  exact fun item hitem => h item (List.mem_reverse.mp hitem)

/-- Sound members are sound in the opposite order. -/
theorem membersSound_reverse {members : List (Key × Draft)} (h : MembersSound members) :
    MembersSound members.reverse := by
  rw [membersSound_iff] at h ⊢
  exact fun member hmember => h member (List.mem_reverse.mp hmember)

end Draft

namespace Numeral

/-- Collecting digits keeps the significand in a machine word. -/
def Sound (n : Numeral) : Prop := n.significand < UInt64.size

/-- A numeral without digits is sound. -/
theorem sound_start (negative : Bool) : (start negative).Sound := by
  cases negative <;> exact (by decide : 0 < UInt64.size)

variable {n : Numeral} {digit : Nat}

/-- A digit in front of the point keeps a numeral sound. -/
theorem Sound.wholeDigit (h : n.Sound) : (n.wholeDigit digit).Sound := by
  unfold Sound Numeral.wholeDigit at *
  split_ifs with hfits
  · simp only [fits, Bool.and_eq_true, decide_eq_true_eq] at hfits
    exact hfits.2
  · exact h

/-- A digit behind the point keeps a numeral sound. -/
theorem Sound.fractionDigit (h : n.Sound) : (n.fractionDigit digit).Sound := by
  unfold Sound Numeral.fractionDigit at *
  split_ifs with hfits
  · simp only [fits, Bool.and_eq_true, decide_eq_true_eq] at hfits
    exact hfits.2
  · exact h

/-- A numeral gives a sound number. -/
theorem Sound.number? (h : n.Sound) {number : Number} (hnumber : n.number? = some number) :
    number.Sound := by
  have hsize : UInt64.size = 18446744073709551616 := rfl
  unfold Sound at h
  unfold Numeral.number? at hnumber
  split_ifs at hnumber with hintegral hpositive hnegative
  · cases hnumber
    constructor <;> omega
  · cases hnumber
    simp only [Bool.and_eq_true, decide_eq_true_eq] at hnegative
    constructor <;> omega
  · cases hnumber
    exact trivial
  · obtain ⟨f, -, rfl⟩ := Option.map_eq_some_iff.mp hnumber
    exact trivial

end Numeral

/-- The numeral of a scalar that is being read is sound, and so is a word. -/
def Scan.Sound : Scan → Prop
  | .word _ value => value.Sound
  | .numeral _ n => n.Sound
  | .text _ | .backslash _ | .codeUnit .. | .afterLead .. | .afterLeadBackslash .. => True

/-- What a character makes of a scalar is sound. -/
def Progress.Sound : Progress → Prop
  | .on scan => scan.Sound
  | .last value | .ended value => ∀ scalar, value = .ok scalar → scalar.Sound
  | .broken .. => True
  | .flawed _ next => next.Sound

namespace Scan

/-- A scalar is sound from its first character. -/
theorem sound_begin? {c : Char} {scan : Scan} (h : begin? c = some scan) : scan.Sound := by
  unfold begin? at h
  split at h
  · cases h; exact trivial
  · cases h; exact trivial
  · cases h; exact trivial
  · cases h; exact trivial
  · cases h; exact Numeral.sound_start true
  · cases h; exact Numeral.sound_start false
  · obtain ⟨digit, -, rfl⟩ := Option.map_eq_some_iff.mp h
    exact (Numeral.sound_start false).wholeDigit

/-- The value of a sound numeral is sound. -/
theorem sound_numeralValue {n : Numeral} (h : n.Sound) {scalar : Scalar}
    (hvalue : numeralValue n = .ok scalar) : scalar.Sound := by
  unfold numeralValue at hvalue
  cases hnumber : n.number? with
  | none => rw [hnumber] at hvalue; cases hvalue
  | some number =>
    rw [hnumber] at hvalue
    cases hvalue
    exact h.number? hnumber

/-- A digit keeps a numeral sound. -/
theorem sound_stepDigit {part : NumeralPart} {n : Numeral} (h : n.Sound) (digit : Nat) :
    (stepDigit part n digit).Sound := by
  cases part with
  | sign =>
    dsimp only [stepDigit]
    split_ifs
    · exact h
    · exact h.wholeDigit
  | zero => exact trivial
  | whole => exact h.wholeDigit
  | point => exact h.fractionDigit
  | fraction => exact h.fractionDigit
  | mark | exponentSign | exponent =>
    dsimp only [stepDigit]
    split_ifs <;> exact h

/-- A character keeps a numeral sound. -/
theorem sound_stepNumeral {part : NumeralPart} {n : Numeral} (h : n.Sound) (c : Char) :
    (stepNumeral part n c).Sound := by
  unfold stepNumeral
  cases digit? c with
  | some digit => exact sound_stepDigit h digit
  | none =>
    dsimp only
    split
    iterate 10 exact h
    split_ifs
    · exact fun scalar => sound_numeralValue h
    · exact trivial

/-- A string that is complete is sound. -/
theorem sound_stepText (read : Option (List Char)) (c : Char) : (stepText read c).Sound := by
  unfold stepText
  split_ifs
  · intro scalar hvalue
    cases read with
    | none => cases hvalue
    | some text => cases hvalue; exact trivial
  all_goals exact trivial

/-- A string goes on behind an escape. -/
theorem sound_stepBackslash (read : Option (List Char)) (c : Char) :
    (stepBackslash read c).Sound := by
  unfold stepBackslash
  split_ifs
  · exact trivial
  · cases escaped? c <;> exact trivial

/-- A string goes on behind a code unit. -/
theorem sound_endCodeUnit (read : Option (List Char)) (lead : Option Nat) (unit : Nat) :
    (endCodeUnit read lead unit).Sound := by
  unfold endCodeUnit
  cases lead with
  | none => dsimp only; split_ifs <;> exact trivial
  | some lead => dsimp only; split_ifs <;> exact trivial

/-- A character keeps a scalar sound. -/
theorem Sound.step {scan : Scan} (h : scan.Sound) (c : Char) : (scan.step c).Sound := by
  unfold Scan.step
  cases scan with
  | word rest value =>
    cases rest with
    | nil => exact trivial
    | cons expected rest =>
      dsimp only
      split_ifs
      · exact trivial
      · exact fun scalar hvalue => Except.ok.inj hvalue ▸ h
      · exact h
  | numeral part n => exact sound_stepNumeral h c
  | text read => exact sound_stepText read c
  | backslash read => exact sound_stepBackslash read c
  | codeUnit read lead left unit =>
    dsimp only [stepCodeUnit]
    split_ifs
    · exact trivial
    · split
      · exact sound_endCodeUnit read lead _
      · exact trivial
  | afterLead read lead =>
    dsimp only
    split_ifs
    · exact trivial
    · exact sound_stepText none c
  | afterLeadBackslash read lead =>
    dsimp only
    split_ifs
    · exact trivial
    · exact sound_stepBackslash none c

end Scan

namespace Reader

/-- All that a waiting container has taken so far is sound. -/
def Frame.Sound : Frame → Prop
  | .items before => Draft.ItemsSound before
  | .member before _ => Draft.MembersSound before

/-- All that the innermost container has taken so far is sound. -/
def Stage.Sound : Stage → Prop
  | .value | .firstItem | .firstKey => True
  | .item before | .afterItem before => Draft.ItemsSound before
  | .key before | .colon before _ | .afterMember before => Draft.MembersSound before
  | .done draft => draft.Sound

/-- All that has been read is sound. -/
structure State.Sound (state : State) : Prop where
  outer : ∀ frame ∈ state.outer, frame.Sound
  stage : state.stage.Sound

/-- All that has been read in front of a scalar is sound. -/
def Place.Sound : Place → Prop
  | .value outer => ∀ frame ∈ outer, frame.Sound
  | .key outer before => (∀ frame ∈ outer, frame.Sound) ∧ Draft.MembersSound before

/-- A move keeps sound what has been read. -/
def SoundMove : Move State Place → Prop
  | .on state => state.Sound
  | .scalar place => place.Sound

/-- All that has been read is sound, the scalar that is being read as well. -/
def SoundReading : Reading State Place → Prop
  | .between state => state.Sound
  | .within place scan => place.Sound ∧ scan.Sound

variable {rigour : Rigour} {outer : List Frame}

/-- A sound value is taken by the container that waits for it. -/
theorem sound_deliver (houter : ∀ frame ∈ outer, frame.Sound) {draft : Draft}
    (hdraft : draft.Sound) : (deliver outer draft).Sound := by
  cases outer with
  | nil => exact ⟨houter, hdraft⟩
  | cons frame outer =>
    obtain ⟨hframe, hrest⟩ := List.forall_mem_cons.mp houter
    cases frame with
    | items before => exact ⟨hrest, hdraft, hframe⟩
    | member before key => exact ⟨hrest, hdraft, hframe⟩

/-- A draft that stands for a flaw is sound. -/
theorem sound_flawed {fault : ReadFault} {draft : Draft} (h : rigour.flawed fault = .ok draft) :
    draft.Sound := by
  cases rigour with
  | strict => cases h
  | lenient => cases h; exact trivial

/-- Opening a container keeps sound what has been read. -/
theorem sound_openIn (houter : ∀ frame ∈ outer, frame.Sound) {stage : Stage}
    {behind : Position} {move : Move State Place}
    (h : openIn rigour outer stage behind = .ok move) (hstage : stage.Sound) :
    SoundMove move := by
  have hmove : SoundMove (.on ⟨outer, stage⟩) := ⟨houter, hstage⟩
  unfold openIn at h
  split_ifs at h with hdeep
  · obtain ⟨_, -, h⟩ := bind_eq_ok h
    cases h
    exact hmove
  · cases h
    exact hmove

/-- Closing a container keeps sound what has been read. -/
theorem sound_closeIn (houter : ∀ frame ∈ outer, frame.Sound) {draft : Draft}
    {behind : Position} {move : Move State Place}
    (h : closeIn rigour outer draft behind = .ok move) (hdraft : draft.Sound) :
    SoundMove move := by
  unfold closeIn at h
  split_ifs at h with hdeep
  · obtain ⟨flawed, hflawed, h⟩ := bind_eq_ok h
    cases h
    exact sound_deliver houter (sound_flawed hflawed)
  · cases h
    exact sound_deliver houter hdraft

/-- The first character of a value keeps sound what has been read. -/
theorem sound_meetValue {behind : Position} {c : Char} {move : Move State Place}
    (h : meetValue rigour outer behind c = .ok move) (houter : ∀ frame ∈ outer, frame.Sound) :
    SoundMove move := by
  unfold meetValue at h
  split_ifs at h
  · exact sound_openIn houter h trivial
  · exact sound_openIn houter h trivial
  · cases h
    exact houter

/-- A character between scalars keeps sound what has been read. -/
theorem sound_meet {state : State} (hstate : state.Sound) {position : Position} {c : Char}
    {move : Move State Place} (h : meet rigour state position c = .ok move) :
    SoundMove move := by
  obtain ⟨outer, stage⟩ := state
  obtain ⟨houter, hstage⟩ := hstate
  cases stage with
  | value => exact sound_meetValue h houter
  | firstItem =>
    dsimp only [meet] at h
    split_ifs at h
    · exact sound_closeIn houter h trivial
    · exact sound_meetValue h (List.forall_mem_cons.mpr ⟨trivial, houter⟩)
  | item before =>
    dsimp only [meet] at h
    split_ifs at h
    exact sound_meetValue h (List.forall_mem_cons.mpr ⟨hstage, houter⟩)
  | firstKey =>
    dsimp only [meet] at h
    split_ifs at h
    · cases h; exact ⟨houter, trivial⟩
    · exact sound_closeIn houter h trivial
  | key before =>
    dsimp only [meet] at h
    split_ifs at h
    cases h
    exact ⟨houter, hstage⟩
  | colon before key =>
    dsimp only [meet] at h
    split_ifs at h
    cases h
    exact ⟨List.forall_mem_cons.mpr ⟨hstage, houter⟩, trivial⟩
  | afterItem items =>
    dsimp only [meet] at h
    split_ifs at h
    · cases h; exact ⟨houter, hstage⟩
    · exact sound_closeIn houter h (Draft.itemsSound_reverse hstage)
  | afterMember members =>
    dsimp only [meet] at h
    split_ifs at h
    · cases h; exact ⟨houter, hstage⟩
    · exact sound_closeIn houter h (Draft.membersSound_reverse hstage)
  | done draft => cases h

/-- A sound scalar in its place keeps sound what has been read. -/
theorem sound_take {place : Place} (hplace : place.Sound) {behind : Position}
    {value : Except ReadCause Scalar} (hvalue : ∀ scalar, value = .ok scalar → scalar.Sound)
    {state : State} (h : take rigour place behind value = .ok state) : state.Sound := by
  cases place with
  | value outer =>
    cases value with
    | ok scalar => cases h; exact sound_deliver hplace (hvalue scalar rfl)
    | error cause =>
      obtain ⟨draft, hdraft, h⟩ := bind_eq_ok h
      cases h
      exact sound_deliver hplace (sound_flawed hdraft)
  | key outer before =>
    cases value with
    | ok scalar =>
      cases scalar with
      | string key => cases h; exact ⟨hplace.1, hplace.2⟩
      | null | bool _ | number _ => cases h
    | error cause =>
      obtain ⟨_, -, h⟩ := bind_eq_ok h
      cases h
      exact ⟨hplace.1, hplace.2⟩

/-- The end of a text leaves a sound draft. -/
theorem sound_finish {state : State} (hstate : state.Sound) {position : Position} {draft : Draft}
    (h : finish state position = .ok draft) : draft.Sound := by
  obtain ⟨outer, stage⟩ := state
  cases stage with
  | done draft => cases h; exact hstate.stage
  | value | firstItem | item _ | firstKey | key _ | colon _ _ | afterItem _ | afterMember _ =>
    cases h

/-- A character between scalars keeps a reading sound. -/
theorem sound_between {state : State} (hstate : state.Sound) {position : Position} {c : Char}
    {reading : Reading State Place}
    (h : (grammar rigour).between position state c = .ok reading) : SoundReading reading := by
  unfold Grammar.between at h
  split_ifs at h
  · cases h; exact hstate
  · obtain ⟨move, hmove, h⟩ := bind_eq_ok h
    have hsound := sound_meet hstate hmove
    cases move with
    | on next => cases h; exact hsound
    | scalar place =>
      dsimp only at h
      cases hbegin : Scan.begin? c with
      | none => rw [hbegin] at h; cases h
      | some scan =>
        rw [hbegin] at h
        cases h
        exact ⟨hsound, Scan.sound_begin? hbegin⟩

/-- What a character makes of a scalar keeps a reading sound. -/
theorem sound_follow {place : Place} (hplace : place.Sound) {progress : Progress}
    (hprogress : progress.Sound) {position : Position} {c : Char} {reading : Reading State Place}
    (h : (grammar rigour).follow position place c progress = .ok reading) :
    SoundReading reading := by
  induction progress with
  | on scan => cases h; exact ⟨hplace, hprogress⟩
  | last value =>
    obtain ⟨state, hstate, h⟩ := bind_eq_ok h
    cases h
    exact sound_take hplace hprogress hstate
  | ended value =>
    obtain ⟨state, hstate, h⟩ := bind_eq_ok h
    exact sound_between (sound_take hplace hprogress hstate) h
  | broken cause bytes => cases h
  | flawed cause next ih =>
    obtain ⟨_, -, h⟩ := bind_eq_ok h
    exact ih hprogress h

/-- Reading a character keeps a reading sound. -/
theorem sound_step {reading : Reading State Place} (hreading : SoundReading reading)
    {position : Position} {c : Char} {next : Reading State Place}
    (h : (grammar rigour).step position reading c = .ok next) : SoundReading next := by
  cases reading with
  | between state => exact sound_between hreading h
  | within place scan => exact sound_follow hreading.1 (hreading.2.step c) h

/-- The value of a sound scalar at the end of the text is sound. -/
theorem sound_scanClose {scan : Scan} (hscan : scan.Sound) {value : Except ReadCause Scalar}
    (h : scan.close = .ok value) {scalar : Scalar} (hvalue : value = .ok scalar) :
    scalar.Sound := by
  cases scan with
  | numeral part n =>
    dsimp only [Scan.close] at h
    split_ifs at h
    cases h
    exact Scan.sound_numeralValue hscan hvalue
  | word _ _ | text _ | backslash _ | codeUnit _ _ _ _ | afterLead _ _
  | afterLeadBackslash _ _ => cases h

/-- What is left of a text leaves a sound draft. -/
theorem sound_run {reading : Reading State Place} (hreading : SoundReading reading)
    {position : Position} {text : List Char} {draft : Draft}
    (h : (grammar rigour).run position reading text = .ok draft) : draft.Sound := by
  induction text generalizing reading position with
  | nil =>
    cases reading with
    | between state => exact sound_finish hreading h
    | within place scan =>
      dsimp only [Grammar.run, Grammar.close] at h
      cases hclose : scan.close with
      | error cause => rw [hclose] at h; cases h
      | ok value =>
        rw [hclose] at h
        obtain ⟨state, hstate, h⟩ := bind_eq_ok h
        exact sound_finish
          (sound_take hreading.1 (fun scalar => sound_scanClose hreading.2 hclose) hstate) h
  | cons c rest ih =>
    obtain ⟨next, hnext, h⟩ := bind_eq_ok h
    exact ih (sound_step hreading hnext) h

end Reader

namespace Draft

/-- What a text holds is sound. -/
theorem sound_of_ofChars {rigour : Rigour} {text : List Char} {draft : Draft}
    (h : ofChars rigour text = .ok draft) : draft.Sound := by
  have hstart : Reader.SoundReading (.between Reader.start) :=
    ⟨List.forall_mem_nil _, trivial⟩
  exact Reader.sound_run hstart h

mutual

/-- The value of a sound draft is sound. -/
theorem Sound.toJson : (draft : Draft) → draft.Sound → ∀ {value : Json},
    draft.toJson = .ok value → value.Sound
  | .scalar leaf, hdraft, value, h => by
    rw [Draft.toJson] at h
    cases h
    cases leaf with
    | number _ => exact hdraft
    | null | bool _ | string _ => exact trivial
  | .array items, hdraft, value, h => by
    rw [Draft.toJson] at h
    obtain ⟨values, hvalues, h⟩ := bind_eq_ok h
    cases h
    exact ItemsSound.itemsToJson items hdraft hvalues
  | .object members, hdraft, value, h => by
    rw [Draft.toJson] at h
    obtain ⟨values, hvalues, h⟩ := bind_eq_ok h
    cases h
    have hmembers := MembersSound.membersToJson members hdraft hvalues
    rw [Json.membersSound_iff] at hmembers
    exact ⟨Json.keysOrdered_sortMembers values,
      Json.membersSound_iff.mpr fun member hmember =>
        hmembers member (Json.mem_of_mem_sortMembers hmember)⟩
  | .flawed fault, _, value, h => by
    rw [Draft.toJson] at h
    cases h

/-- The values of sound drafts are sound. -/
theorem ItemsSound.itemsToJson : (items : List Draft) → ItemsSound items →
    ∀ {values : List Json}, Draft.itemsToJson items = .ok values → Json.ItemsSound values
  | [], _, values, h => by
    rw [Draft.itemsToJson] at h
    cases h
    exact trivial
  | item :: rest, hitems, values, h => by
    rw [Draft.itemsToJson] at h
    obtain ⟨first, hfirst, h⟩ := bind_eq_ok h
    obtain ⟨others, hothers, h⟩ := bind_eq_ok h
    cases h
    exact ⟨Sound.toJson item hitems.1 hfirst, ItemsSound.itemsToJson rest hitems.2 hothers⟩

/-- The values in sound members are sound. -/
theorem MembersSound.membersToJson : (members : List (Key × Draft)) → MembersSound members →
    ∀ {values : List (String × Json)}, Draft.membersToJson members = .ok values →
    Json.MembersSound values
  | [], _, values, h => by
    rw [Draft.membersToJson] at h
    cases h
    exact trivial
  | (key, value) :: rest, hmembers, values, h => by
    rw [Draft.membersToJson] at h
    obtain ⟨name, -, h⟩ := bind_eq_ok h
    obtain ⟨first, hfirst, h⟩ := bind_eq_ok h
    obtain ⟨others, hothers, h⟩ := bind_eq_ok h
    cases h
    exact ⟨Sound.toJson value hmembers.1 hfirst, MembersSound.membersToJson rest hmembers.2 hothers⟩

end

end Draft

namespace Json

/-- The value that a text stands for is sound. -/
theorem sound_of_ofChars {text : List Char} {value : Json} (h : ofChars text = .ok value) :
    value.Sound := by
  obtain ⟨draft, hdraft, h⟩ := bind_eq_ok h
  exact Draft.Sound.toJson draft (Draft.sound_of_ofChars hdraft) h

end Json

end Semijoin
