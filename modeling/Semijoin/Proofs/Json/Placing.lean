import Semijoin.Proofs.Json.Scanning

/-!
# Placing what was written

Between scalars the reader takes the brackets, commas and colons of a written text one by one, and
puts every scalar where a value or a key is awaited. Reading goes on behind a value just as if the
value had been delivered there at once.
-/

namespace Semijoin

namespace Reader

/-- The grammar that refuses what has no value. -/
abbrev strict : Grammar State Place ReadFault Draft := grammar .strict

variable {state state' : State} {place : Place} {scan scan' : Scan} {c : Char}

/-- A character that is no blank and begins no scalar takes the reader on. -/
theorem run_on (hblank : Grammar.isBlank c = false) (position : Position)
    (hmeet : meet .strict state position c = .ok (.on state')) (rest : List Char) :
    strict.run position (.between state) (c :: rest) =
      strict.run (position.past c c.utf8Size) (.between state') rest := by
  have hstep : strict.step position (.between state) c = .ok (.between state') := by
    change (if Grammar.isBlank c then _ else _) = _
    rw [hblank, if_neg Bool.false_ne_true]
    change (meet .strict state position c >>= _) = _
    rw [hmeet]
    rfl
  rw [Grammar.run, hstep]
  rfl

/-- A character that begins a scalar takes the reader into it. -/
theorem run_begin (hblank : Grammar.isBlank c = false) (position : Position)
    (hmeet : meet .strict state position c = .ok (.scalar place))
    (hbegin : Scan.begin? c = some scan) (rest : List Char) :
    strict.run position (.between state) (c :: rest) =
      strict.run (position.past c c.utf8Size) (.within place scan) rest := by
  have hstep : strict.step position (.between state) c = .ok (.within place scan) := by
    change (if Grammar.isBlank c then _ else _) = _
    rw [hblank, if_neg Bool.false_ne_true]
    change (meet .strict state position c >>= _) = _
    rw [hmeet]
    dsimp only [bind, Except.bind]
    rw [hbegin]
    rfl
  rw [Grammar.run, hstep]
  rfl

/-- Characters that belong to a scalar keep the reader in it. -/
theorem run_follow {text : List Char} (hfollow : scan.follow? text = some scan')
    (position : Position) (place : Place) (rest : List Char) :
    strict.run position (.within place scan) (text ++ rest) =
      strict.run (position.across text) (.within place scan') rest := by
  induction text generalizing scan position with
  | nil =>
    rw [Scan.follow?, Option.some.injEq] at hfollow
    rw [hfollow]
    rfl
  | cons c text ih =>
    rw [Scan.follow?] at hfollow
    cases hscan : scan.step c with
    | on next =>
      rw [hscan] at hfollow
      have hstep : strict.step position (.within place scan) c = .ok (.within place next) := by
        change strict.follow position place c (scan.step c) = _
        rw [hscan]
        rfl
      rw [List.cons_append, Grammar.run, hstep]
      exact ih hfollow (position.past c c.utf8Size)
    | last | ended | broken | flawed =>
      rw [hscan] at hfollow
      cases hfollow

/-- The last character of a scalar puts the scalar in its place. -/
theorem run_last {value : Except ReadCause Scalar} (hlast : scan.step c = .last value)
    (htake : ∀ behind, take .strict place behind value = .ok state) (position : Position)
    (rest : List Char) :
    strict.run position (.within place scan) (c :: rest) =
      strict.run (position.past c c.utf8Size) (.between state) rest := by
  have hstep : strict.step position (.within place scan) c = .ok (.between state) := by
    change strict.follow position place c (scan.step c) = _
    rw [hlast]
    change (take .strict place (position.past c 1) value >>= _) = _
    rw [htake]
    rfl
  rw [Grammar.run, hstep]
  rfl

/-- What follows a value ends a numeral. -/
def Delimited (rest : List Char) : Prop :=
  ∀ c ∈ rest.head?, c = ',' ∨ c = ']' ∨ c = '\x7d'

/-- A delimiter ends a numeral that is complete. -/
theorem step_delimiter {part : NumeralPart} (hcomplete : part.isComplete = true)
    (numeral : Numeral) (hc : c = ',' ∨ c = ']' ∨ c = '\x7d') :
    (Scan.numeral part numeral).step c = .ended (Scan.numeralValue numeral) := by
  rcases hc with rfl | rfl | rfl <;> cases part <;> first | rfl | cases hcomplete

/-- In front of a delimiter, and at the end of the text, a numeral is put in its place. -/
theorem run_numeral {part : NumeralPart} (hcomplete : part.isComplete = true) {numeral : Numeral}
    (htake : ∀ behind, take .strict place behind (Scan.numeralValue numeral) = .ok state)
    (position : Position) {rest : List Char} (hrest : Delimited rest) :
    strict.run position (.within place (.numeral part numeral)) rest =
      strict.run position (.between state) rest := by
  cases rest with
  | nil =>
    change strict.close position (.within place (.numeral part numeral)) = _
    rw [Grammar.close, Scan.close, if_pos hcomplete]
    change (take .strict place position (Scan.numeralValue numeral) >>= _) = _
    rw [htake]
    rfl
  | cons c rest =>
    have hstep : strict.step position (.within place (.numeral part numeral)) c =
        strict.step position (.between state) c := by
      change strict.follow position place c ((Scan.numeral part numeral).step c) = _
      rw [step_delimiter hcomplete numeral (hrest c rfl)]
      change (take .strict place position (Scan.numeralValue numeral) >>= _) = _
      rw [htake]
      rfl
    rw [Grammar.run, Grammar.run, hstep]

end Reader

end Semijoin
