import Semijoin.Json.Reader
import Semijoin.Json.Writer
import Semijoin.Proofs.Json.Sound
import Mathlib.Tactic.SplitIfs

/-!
# Scanning what was written

The scalars that the writer puts down are scanned character by character. A word and a string
show their own end; a numeral ends in front of a character that it cannot contain.
-/

namespace Semijoin

namespace Position

/-- The place behind some characters. -/
def across (position : Position) (text : List Char) : Position :=
  text.foldl (fun position c => position.past c c.utf8Size) position

end Position

namespace Scan

/-- Takes a scalar past characters that all belong to it and are not its last. -/
def follow? : Scan → List Char → Option Scan
  | scan, [] => some scan
  | scan, c :: rest =>
    match scan.step c with
    | .on next => next.follow? rest
    | _ => none

/-- A scalar may be taken past characters in two portions. -/
theorem follow?_append (scan : Scan) (first second : List Char) :
    scan.follow? (first ++ second) = (scan.follow? first).bind (·.follow? second) := by
  induction first generalizing scan with
  | nil => rfl
  | cons c rest ih =>
    rw [List.cons_append, follow?, follow?]
    cases scan.step c with
    | on next => exact ih next
    | last | ended | broken | flawed => rfl

/-- The value of a hexadecimal digit. -/
theorem hexDigit?_hexDigitChar : ∀ n < 16, hexDigit? (Json.hexDigitChar n) = some n := by decide

/-- A hexadecimal digit is one byte. -/
theorem utf8Size_hexDigitChar : ∀ n < 16, (Json.hexDigitChar n).utf8Size = 1 := by decide

/-- A control character is scanned from its code unit. -/
theorem follow?_codeUnit (before : List Char) {c : Char} (h : c.toNat < 0x20) :
    (text (some before)).follow?
        ['\\', 'u', '0', '0', Json.hexDigitChar (c.toNat / 16), Json.hexDigitChar (c.toNat % 16)] =
      some (text (some (c :: before))) := by
  have hhigh := hexDigit?_hexDigitChar (c.toNat / 16) (by omega)
  have hlow := hexDigit?_hexDigitChar (c.toNat % 16) (by omega)
  have hhighSize := utf8Size_hexDigitChar (c.toNat / 16) (by omega)
  have hlowSize := utf8Size_hexDigitChar (c.toNat % 16) (by omega)
  have hunit : c.toNat / 16 * 16 + c.toNat % 16 = c.toNat := by omega
  have hlead : Surrogate.isLead c.toNat = false := by
    simp only [Surrogate.isLead, Bool.and_eq_false_iff, decide_eq_false_iff_not]
    omega
  have htrail : Surrogate.isTrail c.toNat = false := by
    simp only [Surrogate.isTrail, Bool.and_eq_false_iff, decide_eq_false_iff_not]
    omega
  have hzeros : (text (some before)).follow? ['\\', 'u', '0', '0'] =
      some (codeUnit (some before) none 2 (some 0)) := rfl
  have hdigits : (codeUnit (some before) none 2 (some 0)).follow?
      [Json.hexDigitChar (c.toNat / 16), Json.hexDigitChar (c.toNat % 16)] =
        some (text (some (c :: before))) := by
    simp [follow?, step, stepCodeUnit, hhigh, hlow, hhighSize, hlowSize, hunit, endCodeUnit, hlead,
      htrail]
  exact (follow?_append _ ['\\', 'u', '0', '0'] _).trans (by rw [hzeros]; exact hdigits)

/-- A character inside a string is scanned as it was written. -/
theorem follow?_charChars (before : List Char) (c : Char) :
    (text (some before)).follow? (Json.charChars c) = some (text (some (c :: before))) := by
  unfold Json.charChars
  split_ifs with hquote hbackslash hb hf hn hr ht hcontrol
  · subst hquote; rfl
  · subst hbackslash; rfl
  · subst hb; rfl
  · subst hf; rfl
  · subst hn; rfl
  · subst hr; rfl
  · subst ht; rfl
  · exact follow?_codeUnit before hcontrol
  · simp only [follow?, step, stepText, if_neg hquote, if_neg hbackslash, if_neg hcontrol]
    rfl

/-- The characters inside a string are scanned as they were written. -/
theorem follow?_flatMap_charChars (before text : List Char) :
    (Scan.text (some before)).follow? (text.flatMap Json.charChars) =
      some (Scan.text (some (text.reverse ++ before))) := by
  induction text generalizing before with
  | nil => rfl
  | cons c rest ih =>
    rw [List.flatMap_cons, follow?_append, follow?_charChars, Option.bind_some, ih]
    simp

/-- A numeral as far as the digits of an integer have been read. -/
def ofWhole (negative : Bool) (value : Nat) : Scan :=
  .numeral (if value = 0 then .zero else .whole)
    { Numeral.start negative with significand := value }

/-- The value of a decimal digit. -/
theorem digit?_digitChar : ∀ n < 10, digit? (Nat.digitChar n) = some n := by decide

/-- One more digit behind those of an integer. -/
theorem step_ofWhole (negative : Bool) {value digit : Nat} (hvalue : value ≠ 0)
    (hdigit : digit < 10) (hfits : value * 10 + digit < UInt64.size) :
    (ofWhole negative value).step (Nat.digitChar digit) =
      .on (ofWhole negative (value * 10 + digit)) := by
  have hfits' : ({ Numeral.start negative with significand := value } : Numeral).fits digit =
      true := by
    simpa [Numeral.fits, Numeral.start] using hfits
  have hne : value * 10 + digit ≠ 0 := by omega
  simp only [ofWhole, step, stepNumeral, digit?_digitChar digit hdigit, hvalue, hne, ↓reduceIte,
    stepDigit, Numeral.wholeDigit, hfits']

/-- The first digit of an integer. -/
theorem step_sign (negative : Bool) {digit : Nat} (hdigit : digit < 10) :
    (Scan.numeral .sign (.start negative)).step (Nat.digitChar digit) =
      .on (ofWhole negative digit) := by
  simp only [step, stepNumeral, digit?_digitChar digit hdigit, stepDigit, ofWhole]
  by_cases hzero : digit = 0
  · subst hzero
    rfl
  · have hfits : ∀ digit < 10, (Numeral.start negative).fits digit = true := by
      cases negative <;> decide
    rw [if_neg hzero, if_neg hzero, Numeral.wholeDigit, hfits digit hdigit, if_pos rfl]
    simp [Numeral.start]

/-- The digits of an integer are scanned as they were written. -/
theorem follow?_digitChars (negative : Bool) {value : Nat} (hfits : value < UInt64.size) :
    (Scan.numeral .sign (.start negative)).follow? (digitChars value) =
      some (ofWhole negative value) := by
  induction value using Nat.strongRecOn with
  | ind value ih =>
    rw [digitChars, Nat.toDigits_eq_if (by decide)]
    split_ifs with hsmall
    · rw [follow?, step_sign negative hsmall]
      rfl
    · rw [follow?_append]
      have hrest := ih (value / 10) (by omega) (by omega)
      rw [digitChars] at hrest
      rw [hrest, Option.bind_some, follow?,
        step_ofWhole negative (by omega) (Nat.mod_lt _ (by decide)) (by omega)]
      have hvalue : value / 10 * 10 + value % 10 = value := by omega
      rw [hvalue]
      rfl

/-- A numeral without a sign begins with its first digit. -/
theorem begin?_digitChar : ∀ digit < 10, begin? (Nat.digitChar digit) =
    some (ofWhole false digit) := by decide

/-- The digits of an integer begin with one. -/
theorem digitChars_eq_cons (value : Nat) :
    ∃ digit rest, digit < 10 ∧ digitChars value = Nat.digitChar digit :: rest := by
  induction value using Nat.strongRecOn with
  | ind value ih =>
    rw [digitChars, Nat.toDigits_eq_if (by decide)]
    split_ifs with hsmall
    · exact ⟨value, [], hsmall, rfl⟩
    · obtain ⟨digit, rest, hdigit, hrest⟩ := ih (value / 10) (by omega)
      rw [digitChars] at hrest
      exact ⟨digit, rest ++ [Nat.digitChar (value % 10)], hdigit, by rw [hrest]; rfl⟩

end Scan

/-- A text is the numeral of a number: it begins like one, goes on to its end, and is complete. -/
def Numeral.Spells (text : List Char) (number : Number) : Prop :=
  ∃ first rest scan part numeral, text = first :: rest ∧ Scan.begin? first = some scan ∧
    scan.follow? rest = some (.numeral part numeral) ∧ part.isComplete = true ∧
    numeral.number? = some number

namespace Number

/-- An integer of machine size is written as its numeral. -/
theorem spells_integer {value : Int} (h : (integer value).Sound) :
    Numeral.Spells (integer value).chars (integer value) := by
  obtain ⟨hlow, hhigh⟩ := h
  have hsize : UInt64.size = 18446744073709551616 := rfl
  have hfits : value.natAbs < UInt64.size := by omega
  have hfollow := Scan.follow?_digitChars (decide (value < 0)) hfits
  rw [chars]
  by_cases hnegative : value < 0
  · rw [if_pos hnegative]
    rw [decide_eq_true hnegative] at hfollow
    refine ⟨'-', _, .numeral .sign (.start true), _, _, rfl, rfl, hfollow, ?_, ?_⟩
    · have hne : value.natAbs ≠ 0 := by omega
      rw [if_neg hne]
      rfl
    · have hne : value.natAbs ≠ 0 := by omega
      have hle : value.natAbs ≤ UInt64.size / 2 := by omega
      have hvalue : -(value.natAbs : Int) = value := by omega
      simp only [Numeral.number?, Numeral.start, Bool.not_false, Bool.and_self, ↓reduceIte,
        Bool.not_true, Bool.false_eq_true, ne_eq, hne, not_false_eq_true, decide_true, hle, hvalue]
  · rw [if_neg hnegative]
    rw [decide_eq_false hnegative] at hfollow
    obtain ⟨digit, rest, hdigit, hdigits⟩ := Scan.digitChars_eq_cons value.natAbs
    rw [hdigits, Scan.follow?, Scan.step_sign false hdigit] at hfollow
    refine ⟨_, rest, _, _, _, hdigits, Scan.begin?_digitChar digit hdigit, hfollow, ?_, ?_⟩
    · split_ifs <;> rfl
    · have hvalue : (value.natAbs : Int) = value := by omega
      simp [Numeral.number?, Numeral.start, hvalue]

end Number

end Semijoin
