/-!
# Double-precision numbers

A double is a sign and a magnitude of sixty-three bits, as IEEE 754 lays them
out: eleven bits of exponent above fifty-two bits of fraction.  Read as one
number, the magnitude orders the doubles: below `infinityMagnitude` they are
finite, there they are infinite, and above they are not numbers.

Every finite double is a whole multiple of one unit, `2 ^ -1074`, and `scaled` is
that multiple.  All that this library computes with doubles is exact arithmetic on it.
-/

namespace TagTemplate

/-- The bit above all magnitudes, which holds the sign. -/
def Binary64.signBit : Nat := 0x8000000000000000

/-- A double-precision number: its sign bit and its other sixty-three bits. -/
structure Binary64 where
  negative : Bool
  magnitude : Nat
  magnitude_lt : magnitude < Binary64.signBit
  deriving DecidableEq, Repr

namespace Binary64

/-- The bit above the fraction: the lowest bit of the exponent, and the leading bit
of a significand, which is not stored. -/
def leadingBit : Nat := 0x10000000000000

/-- The magnitude of the infinities: all exponent bits set, no fraction. -/
def infinityMagnitude : Nat := 0x7FF0000000000000

/-- The double with the given sixty-four bits. -/
def ofBits (bits : Nat) : Binary64 :=
  ⟨bits / signBit % 2 = 1, bits % signBit, Nat.mod_lt _ (by decide)⟩

/-- The sixty-four bits of a double. -/
def toBits (x : Binary64) : Nat := x.negative.toNat * signBit + x.magnitude

def isFinite (x : Binary64) : Bool := x.magnitude < infinityMagnitude

def isNaN (x : Binary64) : Bool := infinityMagnitude < x.magnitude

/-- Equality of values: the two zeros are equal, and what is not a number is
unequal even to itself. -/
def sameValue (x y : Binary64) : Bool :=
  !x.isNaN && !y.isNaN &&
    ((x.magnitude == 0 && y.magnitude == 0) ||
      (x.negative == y.negative && x.magnitude == y.magnitude))

/-- The least positive double is the unit, two to the power of minus this. -/
def unitExponent : Nat := 1074

/-- How many units make one. -/
@[irreducible] def unitsPerOne : Nat := Nat.pow 2 unitExponent

/-- A finite magnitude as a multiple of the unit.  With exponent bits zero the
fraction is the multiple; otherwise a leading one is added to the fraction, and
each step of the exponent doubles it. -/
def scaled (magnitude : Nat) : Nat :=
  let exponent := magnitude / leadingBit
  let fraction := magnitude % leadingBit
  if exponent = 0 then fraction else (leadingBit + fraction) * Nat.pow 2 (exponent - 1)

/-- A double is known by its sixty-four bits. -/
theorem ofBits_toBits (x : Binary64) : ofBits x.toBits = x := by
  obtain ⟨negative, magnitude, h⟩ := x
  have hpos : 0 < signBit := by decide
  cases negative
  · simp [ofBits, toBits, Nat.div_eq_of_lt h, Nat.mod_eq_of_lt h]
  · simp [ofBits, toBits, Nat.add_div_left _ hpos, Nat.div_eq_of_lt h, Nat.mod_eq_of_lt h]

end Binary64
end TagTemplate
