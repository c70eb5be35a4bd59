/-!
# The shortest decimal of a double

A finite double other than zero is `significand * 2 ^ exponent`. The reals that round
to it form an interval, and a decimal reads back as the double when it lies in that
interval. The decimal chosen here stands on the coarsest grid `n * 10 ^ scale` that
meets the interval, and is the grid point nearest to the double.
-/

namespace Semijoin

/-- The number `digits * 10 ^ scale`. -/
structure Decimal where
  digits : Nat
  scale : Int
  deriving DecidableEq, Repr

/-- The magnitude `significand * 2 ^ exponent` of a double. At the lower end of a binade
the gap to the next smaller double is half as wide as the one above. -/
structure Magnitude where
  significand : Nat
  exponent : Int
  binadeStart : Bool
  deriving DecidableEq, Repr

namespace Magnitude

/-- The bit that the significand of a normal double has above its 52 stored bits. -/
def hiddenBit : Nat := 0x10000000000000

/-- The magnitude held in the bits of a finite double. -/
def ofBits (bits : UInt64) : Magnitude :=
  let fraction : Nat := bits.toNat % hiddenBit
  let biased : Nat := bits.toNat / hiddenBit % 0x800
  if biased = 0 then ⟨fraction, -1074, false⟩
  -- Below the first normal double the gap stays the same.
  else ⟨fraction + hiddenBit, (biased : Int) - 1075, fraction == 0 && biased != 1⟩

/-- The magnitude is zero. -/
def isZero (m : Magnitude) : Bool := m.significand == 0

/-- A magnitude and the ends of its rounding interval, measured in a common unit in which
the points of one decimal grid are the multiples of `step`. -/
structure Ruler where
  low : Nat
  value : Nat
  high : Nat
  step : Nat
  closed : Bool
  deriving DecidableEq, Repr

/-- Measures a magnitude against the grid of the multiples of `10 ^ scale`. The unit is a
quarter of the gap between doubles, so that the ends of the interval are whole numbers.
An even significand keeps both ends, since ties round to even. -/
def ruler (m : Magnitude) (scale : Int) : Ruler :=
  let shift := m.exponent - 2
  let unit := Nat.pow 2 shift.toNat * Nat.pow 10 (-scale).toNat
  { low := (4 * m.significand - if m.binadeStart then 1 else 2) * unit
    value := 4 * m.significand * unit
    high := (4 * m.significand + 2) * unit
    step := Nat.pow 10 scale.toNat * Nat.pow 2 (-shift).toNat
    closed := m.significand % 2 == 0 }

/-- A grid point reads back as the magnitude that was measured. -/
def Ruler.holds (r : Ruler) (n : Nat) : Bool :=
  if r.closed then r.low ≤ n * r.step && n * r.step ≤ r.high
  else r.low < n * r.step && n * r.step < r.high

/-- The grid point in the interval that is nearest to the value, the even one of two
at equal distance. -/
def Ruler.nearest? (r : Ruler) : Option Nat :=
  let below := r.value / r.step
  let above := below + 1
  let toBelow := r.value - below * r.step
  let toAbove := above * r.step - r.value
  match r.holds below, r.holds above with
  | false, false => none
  | true, false => some below
  | false, true => some above
  | true, true =>
    if toBelow < toAbove then some below
    else if toAbove < toBelow then some above
    else some (if below % 2 = 0 then below else above)

/-- Tries ever finer grids. When the attempts are used up, the last grid gives the result. -/
def shortestFrom (m : Magnitude) : (attempts : Nat) → (scale : Int) → Decimal
  | 0, scale =>
    let r := m.ruler scale
    ⟨r.value / r.step, scale⟩
  | attempts + 1, scale =>
    match (m.ruler scale).nearest? with
    | some n => ⟨n, scale⟩
    | none => shortestFrom m attempts (scale - 1)

/-- A power of ten above the magnitude: `1233 / 4096` is just below the decimal logarithm
of two. -/
def coarsestScale (m : Magnitude) : Int :=
  (m.exponent + m.significand.log2 + 1) * 1233 / 4096 + 2

/-- The shortest decimal that reads back as the magnitude. Seventeen digits always do, so
the attempts suffice. -/
def shortest (m : Magnitude) : Decimal :=
  m.shortestFrom 24 m.coarsestScale

end Magnitude

end Semijoin
