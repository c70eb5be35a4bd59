import Semijoin.Outcome
import Semijoin.Proofs.Json.Placing

/-!
# Doubles that read back

That the text of a double reads back as the double is a matter of rounding, and is not shown here.
A text that does so by itself is a numeral, and so it reads back inside a document as well.
-/

namespace Semijoin

open Reader

namespace Scan

/-- What a character makes of a numeral. -/
theorem step_numeral_cases (part : NumeralPart) (numeral : Numeral) (c : Char) :
    (∃ part' numeral', (Scan.numeral part numeral).step c = .on (.numeral part' numeral')) ∨
      (Scan.numeral part numeral).step c = .ended (numeralValue numeral) ∨
      (∃ cause bytes, (Scan.numeral part numeral).step c = .broken cause bytes) ∨
      ∃ cause next, (Scan.numeral part numeral).step c = .flawed cause next := by
  unfold step stepNumeral
  cases hdigit : digit? c with
  | some digit => cases part <;> dsimp only [stepDigit] <;> (try split_ifs) <;> simp
  | none =>
    dsimp only
    split <;> (try split_ifs) <;> simp

end Scan

namespace Reader

/-- Behind the value of a numeral that stands alone a document is complete. -/
theorem done_of_take_numeralValue {position : Position} {numeral : Numeral} {state : State}
    (h : take .strict (.value []) position (Scan.numeralValue numeral) = .ok state) :
    ∃ draft, state = ⟨[], .done draft⟩ := by
  rw [Scan.numeralValue] at h
  cases hnumber : numeral.number? with
  | none =>
    rw [hnumber] at h
    cases h
  | some number =>
    rw [hnumber] at h
    cases h
    exact ⟨_, rfl⟩

/-- A numeral that has been read up to the end of the text was followed to its end. -/
theorem follow?_of_run {part : NumeralPart} {numeral : Numeral} {text : List Char}
    (hblank : ∀ c ∈ text, Grammar.isBlank c = false) {position : Position} {draft : Draft}
    (h : strict.run position (.within (.value []) (.numeral part numeral)) text = .ok draft) :
    ∃ part' numeral' number, (Scan.numeral part numeral).follow? text =
        some (.numeral part' numeral') ∧ part'.isComplete = true ∧
      numeral'.number? = some number ∧ draft = .scalar (.number number) := by
  induction text generalizing part numeral position with
  | nil =>
    change strict.close position (.within (.value []) (.numeral part numeral)) = .ok draft at h
    rw [Grammar.close, Scan.close] at h
    by_cases hcomplete : part.isComplete = true
    · rw [if_pos hcomplete, Scan.numeralValue] at h
      cases hnumber : numeral.number? with
      | none => rw [hnumber] at h; cases h
      | some number =>
        rw [hnumber] at h
        cases h
        exact ⟨part, numeral, number, rfl, hcomplete, hnumber, rfl⟩
    · rw [if_neg hcomplete] at h
      cases h
  | cons c rest ih =>
    rw [Grammar.run] at h
    have hstep : strict.step position (.within (.value []) (.numeral part numeral)) c =
        strict.follow position (.value []) c ((Scan.numeral part numeral).step c) := rfl
    rw [hstep] at h
    rcases Scan.step_numeral_cases part numeral c with ⟨part', numeral', hon⟩ | hended |
      ⟨cause, bytes, hbroken⟩ | ⟨cause, next, hflawed⟩
    · rw [hon] at h
      obtain ⟨part', numeral', number, hfollow, hrest⟩ :=
        ih (fun other hother => hblank other (List.mem_cons_of_mem _ hother)) h
      refine ⟨part', numeral', number, ?_, hrest⟩
      rw [Scan.follow?, hon]
      exact hfollow
    · -- What stands behind a whole document is refused.
      rw [hended] at h
      obtain ⟨reading, hreading, -⟩ := bind_eq_ok h
      obtain ⟨state, htake, hreading⟩ := bind_eq_ok hreading
      obtain ⟨done, rfl⟩ := done_of_take_numeralValue htake
      rw [Grammar.between, if_neg (by simp [hblank c List.mem_cons_self])] at hreading
      cases hreading
    · rw [hbroken] at h
      cases h
    · rw [hflawed] at h
      cases h

end Reader

/-- The characters that numerals are written with. -/
def Numeral.Glyph (c : Char) : Prop :=
  c.isDigit = true ∨ c = '.' ∨ c = 'e' ∨ c = '+' ∨ c = '-'

namespace Decimal

open Numeral (Glyph)

/-- Digits are characters of numerals. -/
theorem glyph_of_mem_digitChars {n : Nat} {c : Char} (h : c ∈ digitChars n) : Glyph c :=
  .inl (Nat.isDigit_of_mem_toDigits (by decide) (by decide) h)

/-- A decimal with the point in its place is written with the characters of numerals. -/
theorem glyph_of_mem_positional {d : Decimal} {c : Char} (h : c ∈ d.positional) : Glyph c := by
  have hdigits {c : Char} : c ∈ digitChars d.digits → Glyph c := glyph_of_mem_digitChars
  have hzero : Glyph '0' := .inl rfl
  have hpoint : Glyph '.' := .inr (.inl rfl)
  unfold positional at h
  dsimp only at h
  split_ifs at h
  · simp only [List.mem_append, List.mem_cons, List.mem_replicate, List.not_mem_nil] at h
    grind
  · simp only [List.mem_append, List.mem_cons] at h
    rcases h with h | rfl | h
    · exact hdigits (List.mem_of_mem_take h)
    · exact hpoint
    · exact hdigits (List.mem_of_mem_drop h)
  · simp only [List.cons_append, List.mem_append, List.mem_cons, List.mem_replicate] at h
    grind

/-- The same of an exponent. -/
theorem glyph_of_mem_exponentChars {n : Int} {c : Char} (h : c ∈ exponentChars n) : Glyph c := by
  rcases List.mem_cons.mp h with rfl | h
  · split_ifs
    · exact .inr (.inr (.inr (.inr rfl)))
    · exact .inr (.inr (.inr (.inl rfl)))
  · exact glyph_of_mem_digitChars h

/-- A decimal with an exponent is written with the characters of numerals. -/
theorem glyph_of_mem_scientific {d : Decimal} {c : Char} (h : c ∈ d.scientific) : Glyph c := by
  have hdigits {c : Char} : c ∈ digitChars d.digits → Glyph c := glyph_of_mem_digitChars
  have hexponent {c : Char} : c ∈ exponentChars d.leading → Glyph c := glyph_of_mem_exponentChars
  have hpoint : Glyph '.' := .inr (.inl rfl)
  have hmark : Glyph 'e' := .inr (.inr (.inl rfl))
  unfold scientific at h
  split at h
  · cases h
  · next first heq =>
    rw [heq] at hdigits
    simp only [List.mem_cons] at h hdigits
    grind
  · next first rest _ heq =>
    rw [heq] at hdigits
    simp only [List.cons_append, List.mem_append, List.mem_cons] at h hdigits
    grind

end Decimal

namespace Number

open Numeral (Glyph)

/-- A double is written with the characters of numerals. -/
theorem glyph_of_mem_floatChars {bits : UInt64} {c : Char} (h : c ∈ floatChars bits) :
    Glyph c := by
  have hunsigned {magnitude : Magnitude} (hmem : c ∈ if magnitude.isZero then ['0', '.', '0']
      else magnitude.shortest.chars Number.layout) : Glyph c := by
    split_ifs at hmem
    · simp only [List.mem_cons, List.not_mem_nil] at hmem
      rcases hmem with rfl | rfl | rfl | hmem
      · exact .inl rfl
      · exact .inr (.inl rfl)
      · exact .inl rfl
      · cases hmem
    · unfold Decimal.chars at hmem
      split_ifs at hmem
      · exact Decimal.glyph_of_mem_positional hmem
      · exact Decimal.glyph_of_mem_scientific hmem
  unfold floatChars at h
  dsimp only at h
  by_cases hsign : bits.toNat < UInt64.size / 2
  · rw [if_pos hsign] at h
    exact hunsigned h
  · rw [if_neg hsign] at h
    rcases List.mem_cons.mp h with rfl | h
    · exact .inr (.inr (.inr (.inr rfl)))
    · exact hunsigned h

end Number

namespace Numeral

/-- The characters of numerals are no blanks and open no container. -/
theorem Glyph.ne {c : Char} (h : Glyph c) :
    Grammar.isBlank c = false ∧ c ≠ '[' ∧ c ≠ '\x7b' := by
  rcases h with h | rfl | rfl | rfl | rfl
  · refine ⟨?_, ?_, ?_⟩
    · rw [Bool.eq_false_iff]
      intro hblank
      simp only [Grammar.isBlank, Bool.or_eq_true, beq_iff_eq] at hblank
      rcases hblank with ((rfl | rfl) | rfl) | rfl <;> cases h
    · rintro rfl
      cases h
    · rintro rfl
      cases h
  all_goals exact ⟨rfl, by decide, by decide⟩

/-- What begins with a character of numerals is a numeral, or nothing. -/
theorem Glyph.begin? {c : Char} (h : Glyph c) :
    Scan.begin? c = none ∨ ∃ part numeral, Scan.begin? c = some (.numeral part numeral) := by
  rcases h with h | rfl | rfl | rfl | rfl
  · right
    unfold Scan.begin?
    split
    · cases h
    · cases h
    · cases h
    · cases h
    · cases h
    · exact ⟨_, _, rfl⟩
    · rw [Scan.digit?, if_pos h]
      exact ⟨_, _, rfl⟩
  · exact .inl rfl
  · exact .inl rfl
  · exact .inl rfl
  · exact .inr ⟨_, _, rfl⟩

/-- A text of such characters that reads as a number is the numeral of that number. -/
theorem spells_of_ofChars {text : List Char} (hglyphs : ∀ c ∈ text, Glyph c) {number : Number}
    (h : Json.ofChars text = .ok (.number number)) : Spells text number := by
  rw [Json.ofChars] at h
  cases hdraft : Draft.ofChars .strict text with
  | error fault => rw [hdraft] at h; cases h
  | ok draft =>
    rw [hdraft] at h
    change draft.toJson = .ok (.number number) at h
    change strict.run .start (.between Reader.start) text = .ok draft at hdraft
    cases text with
    | nil => cases hdraft
    | cons c rest =>
      have hglyph := hglyphs c List.mem_cons_self
      obtain ⟨hblank, hbracket, hbrace⟩ := hglyph.ne
      have hmeet : meet .strict Reader.start .start c = .ok (.scalar (.value [])) := by
        change meetValue .strict [] (Position.start.past c 1) c = _
        rw [meetValue, if_neg hbracket, if_neg hbrace]
        rfl
      rcases hglyph.begin? with hbegin | ⟨part, numeral, hbegin⟩
      · have hstep : strict.step .start (.between Reader.start) c =
            .error ⟨.noValue, Position.start.past c 1⟩ := by
          change (if Grammar.isBlank c then _ else _) = _
          rw [hblank, if_neg Bool.false_ne_true]
          change (meet .strict Reader.start .start c >>= _) = _
          rw [hmeet]
          dsimp only [bind, Except.bind]
          rw [hbegin]
          rfl
        rw [Grammar.run, hstep] at hdraft
        cases hdraft
      · rw [run_begin hblank .start hmeet hbegin] at hdraft
        obtain ⟨part', numeral', number', hfollow, hcomplete, hnumber, rfl⟩ :=
          follow?_of_run (fun other hother =>
            (hglyphs other (List.mem_cons_of_mem _ hother)).ne.1) hdraft
        cases h
        exact ⟨c, rest, _, part', numeral', rfl, hbegin, hfollow, hcomplete, hnumber⟩

end Numeral

/-- A double whose text reads back as itself is written as its numeral. -/
theorem Number.spells_float {bits : UInt64}
    (h : Json.ofChars (floatChars bits) = .ok (.number (.float bits))) :
    Numeral.Spells (floatChars bits) (.float bits) :=
  Numeral.spells_of_ofChars (fun _ hmem => glyph_of_mem_floatChars hmem) h

end Semijoin
