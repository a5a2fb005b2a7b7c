import TagTemplate.Binary64.Basic

/-!
# The nearest double

A quotient of natural numbers is read as the double nearest to it; of two equally
near ones the one with the even magnitude is taken.  `nearestMagnitude` is exact:
it divides once and rounds once, to as many bits as the result has room for.  Its
answer may be infinite or larger, and `ofRatio?` refuses it then, which happens
exactly for what rounds to `2 ^ 1024` or more.
-/

namespace TagTemplate
namespace Binary64

/-- A quotient rounded to the nearest whole number, halves to the even one. -/
def roundHalfEven (num den : Nat) : Nat :=
  let quotient := num / den
  let remainder := num % den
  if 2 * remainder < den then quotient
  else if den < 2 * remainder then quotient + 1
  else quotient + quotient % 2

/-- The magnitude of the double nearest to `num / den`, had the exponent no upper
bound.  Counted in units, the quotient has `excess` bits more than the
fifty-three of a significand; those are rounded away.  A significand that has its
leading bit carries it into the exponent, so that one sum gives the magnitude of
subnormal numbers, of normal ones, and of a significand that rounding filled up. -/
def nearestMagnitude (num den : Nat) : Nat :=
  let units := num * unitsPerOne
  let excess := Nat.log2 (units / den) - 52
  excess * leadingBit + roundHalfEven units (den * Nat.pow 2 excess)

/-- The finite double nearest to `num / den`, with the given sign. -/
def ofRatio? (negative : Bool) (num den : Nat) : Option Binary64 :=
  if h : nearestMagnitude num den < infinityMagnitude then
    some ⟨negative, nearestMagnitude num den, Nat.lt_trans h (by decide)⟩
  else none

/-- The sign is kept also where the value is zero. -/
theorem negative_of_ofRatio? {negative : Bool} {num den : Nat} {x : Binary64}
    (h : ofRatio? negative num den = some x) : x.negative = negative := by
  unfold ofRatio? at h
  split at h
  · exact (Option.some.inj h) ▸ rfl
  · simp at h

/-- What is read is finite. -/
theorem isFinite_of_ofRatio? {negative : Bool} {num den : Nat} {x : Binary64}
    (h : ofRatio? negative num den = some x) : x.isFinite = true := by
  unfold ofRatio? at h
  split at h
  · rename_i hlt
    obtain rfl := Option.some.inj h
    exact decide_eq_true hlt
  · simp at h

end Binary64
end TagTemplate
