/-!
# Decimal numbers and their digits

A decimal number is a whole number of units, where the unit is a power of ten.
It has two texts here: the positional one, which always has a decimal point with
digits on both sides, and the scientific one, which has one digit before the
point and an exponent.  Both show all digits of the number and no others, except
for the zeros that the positional text needs to reach the point.
-/

namespace TagTemplate

/-- The number `digits * 10 ^ exponent`. -/
structure Decimal where
  digits : Nat
  exponent : Int
  deriving DecidableEq, Repr

namespace Decimal

/-- The numerator of the number as a quotient of natural numbers. -/
def numerator (d : Decimal) : Nat := d.digits * Nat.pow 10 d.exponent.toNat

/-- The denominator of the number as a quotient of natural numbers. -/
def denominator (d : Decimal) : Nat := Nat.pow 10 (-d.exponent).toNat

/-- The same number in the largest unit of which it is a multiple. -/
def trim (d : Decimal) : Decimal :=
  if d.digits ≠ 0 ∧ d.digits % 10 = 0 then trim ⟨d.digits / 10, d.exponent + 1⟩ else d
termination_by d.digits
decreasing_by omega

/-- The digits of a natural number, the most significant one first. -/
def digitsOf (n : Nat) : List Char := Nat.toDigits 10 n

/-- How many digits stand before the decimal point; not positive when the point
stands in front of the first digit. -/
def pointPlace (d : Decimal) : Int := (digitsOf d.digits).length + d.exponent

/-- The power of ten of the first digit. -/
def leadingExponent (d : Decimal) : Int := d.pointPlace - 1

/-- The digits with a decimal point at its place, and zeros up to it. -/
def positional (d : Decimal) : List Char :=
  let ds := digitsOf d.digits
  if d.pointPlace ≤ 0 then '0' :: '.' :: List.replicate (-d.pointPlace).toNat '0' ++ ds
  else if ds.length ≤ d.pointPlace then
    ds ++ List.replicate d.exponent.toNat '0' ++ ['.', '0']
  else ds.take d.pointPlace.toNat ++ '.' :: ds.drop d.pointPlace.toNat

/-- The digits with a decimal point after the first one, if there are more, and
the exponent with its sign. -/
def scientific (d : Decimal) : List Char :=
  let e := d.leadingExponent
  let significand :=
    match digitsOf d.digits with
    | first :: rest@(_ :: _) => first :: '.' :: rest
    | ds => ds
  significand ++ 'e' :: (if e < 0 then '-' else '+') :: digitsOf e.natAbs

end Decimal
end TagTemplate
