import Semijoin.Json.Basic

/-!
# Numerals

A numeral is collected digit by digit. Its significand is a 64-bit word: digits of the
whole part that no longer fit only raise the scale, and digits of the fraction that no
longer fit are dropped. An integer that fits is kept exactly. Any other numeral becomes
a double by one multiplication or division by a power of ten, so that its value is the
rounded result of that operation.
-/

namespace Semijoin

/-- A numeral as far as it has been read. -/
structure Numeral where
  negative : Bool
  /-- The digits that were kept. -/
  significand : Nat
  /-- The power of ten that the digits before an exponent give the significand. -/
  scale : Int
  /-- A digit of the current part did not fit. -/
  full : Bool
  /-- There is no fraction and no exponent. -/
  integral : Bool
  exponentNegative : Bool
  exponent : Nat
  deriving DecidableEq, Repr

namespace Numeral

/-- A numeral before its first digit. -/
def start (negative : Bool) : Numeral :=
  { negative, significand := 0, scale := 0, full := false, integral := true,
    exponentNegative := false, exponent := 0 }

/-- One more digit would still fit in the word. -/
def fits (n : Numeral) (digit : Nat) : Bool :=
  !n.full && n.significand * 10 + digit < UInt64.size

/-- Reads a digit of the whole part. -/
def wholeDigit (n : Numeral) (digit : Nat) : Numeral :=
  if n.fits digit then { n with significand := n.significand * 10 + digit }
  else { n with full := true, scale := n.scale + 1 }

/-- Reads the point. -/
def point (n : Numeral) : Numeral :=
  { n with full := false, integral := false }

/-- Reads a digit of the fraction. -/
def fractionDigit (n : Numeral) (digit : Nat) : Numeral :=
  if n.fits digit then
    { n with significand := n.significand * 10 + digit, scale := n.scale - 1 }
  else { n with full := true }

/-- Reads the letter before an exponent. -/
def exponentMark (n : Numeral) : Numeral :=
  { n with integral := false }

/-- Reads the sign of an exponent. -/
def exponentSign (n : Numeral) (negative : Bool) : Numeral :=
  { n with exponentNegative := negative }

/-- Reads a digit of the exponent. -/
def exponentDigit (n : Numeral) (digit : Nat) : Numeral :=
  { n with exponent := n.exponent * 10 + digit }

/-- The largest exponent that is taken down. -/
def largestExponent : Nat := 2147483647

/-- With this digit the exponent makes the number too large, whatever digits may follow. -/
def overflows (n : Numeral) (digit : Nat) : Bool :=
  !n.exponentNegative && n.significand ≠ 0 && largestExponent < n.exponent * 10 + digit

/-- The power of ten that scales the significand. -/
def totalScale (n : Numeral) : Int :=
  if n.exponentNegative then n.scale - n.exponent else n.scale + n.exponent

/-- A power of ten as a double. -/
def powerOfTen (n : Nat) : Float := Float.ofScientific 1 false n

/-- The largest power of ten that is a double. -/
def largestPower : Nat := 308

/-- Scales a significand by a power of ten. There is no result when the number is too
large for a double; a number too small is zero. -/
def scaled? (significand : Nat) (scale : Int) : Option Float :=
  let f := significand.toUInt64.toFloat
  if 0 ≤ scale then
    if scale ≤ largestPower then
      let product := f * powerOfTen scale.toNat
      if product.isInf then none else some product
    else if significand = 0 then some 0 else none
  else
    let down := (-scale).toNat
    if down ≤ largestPower then some (f / powerOfTen down)
    -- One division cannot reach further down; after two, nothing is left of any significand.
    else if down ≤ 2 * largestPower then
      some (f / powerOfTen largestPower / powerOfTen (down - largestPower))
    else some 0

/-- A double as a number. -/
def float (negative : Bool) (f : Float) : Number :=
  .float (if negative then -f else f).toBits

/-- The number that a complete numeral stands for. -/
def number? (n : Numeral) : Option Number :=
  if n.integral && !n.full then
    -- Minus zero is no integer, and neither is one below the machine integers.
    if !n.negative then some (.integer n.significand)
    else if n.significand ≠ 0 && n.significand ≤ UInt64.size / 2 then
      some (.integer (-n.significand))
    else some (float true n.significand.toUInt64.toFloat)
  else (scaled? n.significand n.totalScale).map (float n.negative)

end Numeral

end Semijoin
