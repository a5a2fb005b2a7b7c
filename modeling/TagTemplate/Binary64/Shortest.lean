import TagTemplate.Binary64.Nearest
import TagTemplate.Decimal

/-!
# The shortest decimal that reads back

The decimal text of a double shows the fewest digits that read back as the same
double.  A number of digits fixes a grid of decimals around the value, and on
that grid only the two neighbours of the value have to be tried: if any point of
the grid reads back, one of these does.  Of two neighbours that both read back
the nearer one is taken.

"Reads back" is tested with the reader itself, `nearestMagnitude`.  Seventeen
digits always suffice.  Should none of the grids up to there have an answer, the
exact decimal expansion is taken, so that what is returned reads back in any case.
-/

namespace TagTemplate
namespace Binary64

/-- Which of two equally near decimals is taken. -/
inductive Tie where
  /-- The larger one. -/
  | up
  /-- The one whose last digit is even. -/
  | even
  deriving DecidableEq, Repr

/-- The power of ten of the first digit of a positive finite magnitude. -/
def leadingExponent (magnitude : Nat) : Int :=
  (Decimal.digitsOf (scaled magnitude * Nat.pow 10 324 / unitsPerOne)).length - 325

/-- Whether a decimal reads back as the double with the given magnitude. -/
def readsBack (magnitude : Nat) (d : Decimal) : Bool :=
  nearestMagnitude d.numerator d.denominator == magnitude

/-- The one taken of `low` and `low + 1` where both are equally near. -/
def Tie.choose : Tie → Nat → Nat
  | up, low => low + 1
  | even, low => low + low % 2

/-- Of the two whole numbers around `num / den`, the one that is accepted, or the
nearer one if both are. -/
def nearerNeighbour? (tie : Tie) (accepts : Nat → Bool) (num den : Nat) : Option Nat :=
  let low := num / den
  let remainder := num % den
  if accepts low && accepts (low + 1) then
    some (if 2 * remainder < den then low
      else if den < 2 * remainder then low + 1
      else tie.choose low)
  else if accepts low then some low
  else if accepts (low + 1) then some (low + 1)
  else none

/-- The neighbour of a magnitude on the grid of multiples of `10 ^ unit` that
reads back, the nearer one if both do. -/
def onGrid? (tie : Tie) (magnitude : Nat) (unit : Int) : Option Decimal :=
  (nearerNeighbour? tie (fun n => readsBack magnitude ⟨n, unit⟩)
    (scaled magnitude * Nat.pow 10 (-unit).toNat) (unitsPerOne * Nat.pow 10 unit.toNat)).map
      (⟨·, unit⟩)

/-- The exact decimal expansion of a finite magnitude.  A unit is as many powers of
five as it is halved, at the same number of decimal places. -/
def exactDecimal (magnitude : Nat) : Decimal :=
  ⟨scaled magnitude * Nat.pow 5 unitExponent, -(unitExponent : Int)⟩

/-- The decimal with the fewest digits that reads back as a finite magnitude, the
nearest such one. -/
def shortest (tie : Tie) (magnitude : Nat) : Decimal :=
  if magnitude = 0 then ⟨0, 0⟩
  else
    let place := leadingExponent magnitude
    let found := (List.range 17).findSome? fun (n : Nat) => onGrid? tie magnitude (place - n)
    (found.getD (exactDecimal magnitude)).trim

theorem accepts_of_nearerNeighbour? {tie : Tie} {accepts : Nat → Bool} {num den n : Nat}
    (h : nearerNeighbour? tie accepts num den = some n) : accepts n = true := by
  simp only [nearerNeighbour?, Bool.and_eq_true] at h
  split at h
  · rename_i hboth
    obtain rfl := Option.some.inj h
    split
    · exact hboth.1
    · split
      · exact hboth.2
      · cases tie with
        | up => exact hboth.2
        | even =>
          rcases Nat.mod_two_eq_zero_or_one (num / den) with h2 | h2
          · simpa [Tie.choose, h2] using hboth.1
          · simpa [Tie.choose, h2] using hboth.2
  · split at h
    · exact Option.some.inj h ▸ ‹_›
    · split at h
      · exact Option.some.inj h ▸ ‹_›
      · simp at h

/-- A decimal found on a grid reads back. -/
theorem readsBack_of_onGrid? {tie : Tie} {magnitude : Nat} {unit : Int} {d : Decimal}
    (h : onGrid? tie magnitude unit = some d) : readsBack magnitude d = true := by
  obtain ⟨n, hn, rfl⟩ := Option.map_eq_some_iff.mp h
  have h := accepts_of_nearerNeighbour? hn
  exact h

end Binary64
end TagTemplate
