import Semijoin.Decimal.Shortest

/-!
# Decimals as text

Numbers of moderate size are written with a point in its place, all others with one
digit before the point and an exponent. `Decimal.Layout` holds what a format decides.
-/

namespace Semijoin

/-- The digits of a natural number, most significant first. -/
def digitChars (n : Nat) : List Char := Nat.toDigits 10 n

namespace Decimal

/-- The range of leading exponents that are written with the point in its place. -/
structure Layout where
  smallest : Int
  largest : Int
  deriving DecidableEq, Repr

/-- The exponent of the first digit. -/
def leading (d : Decimal) : Int :=
  d.scale + (digitChars d.digits).length - 1

/-- The point in its place, with at least one digit on either side. -/
def positional (d : Decimal) : List Char :=
  let digits := digitChars d.digits
  if 0 ≤ d.scale then digits ++ List.replicate d.scale.toNat '0' ++ ['.', '0']
  else if 0 ≤ d.leading then
    let whole := d.leading.toNat + 1
    digits.take whole ++ '.' :: digits.drop whole
  else '0' :: '.' :: List.replicate (-d.leading - 1).toNat '0' ++ digits

/-- An exponent with its sign. -/
def exponentChars (n : Int) : List Char :=
  (if n < 0 then '-' else '+') :: digitChars n.natAbs

/-- One digit before the point, a point only before further digits, and an exponent. -/
def scientific (d : Decimal) : List Char :=
  match digitChars d.digits with
  | [] => []
  | first :: [] => first :: 'e' :: exponentChars d.leading
  | first :: rest => first :: '.' :: rest ++ 'e' :: exponentChars d.leading

/-- The text of a decimal in a layout. -/
def chars (layout : Layout) (d : Decimal) : List Char :=
  if layout.smallest ≤ d.leading ∧ d.leading ≤ layout.largest then d.positional
  else d.scientific

end Decimal

end Semijoin
