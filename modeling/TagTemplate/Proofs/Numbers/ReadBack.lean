import TagTemplate.Binary64.Shortest

/-!
# A double read back from its shortest decimal

Reading divides and rounds once, so it depends on the quotient alone and not on the two
numbers by which the quotient is given (`nearestMagnitude_eq_of_ratio_eq`), and a quotient
that is a double already is not changed by it (`nearestMagnitude_scaled`).

The shortest decimal of a double reads back: on a grid this has been tested, the exact
expansion is the double itself, and to leave out zeros at the end does not change the
value (`readsBack_shortest`).
-/

namespace TagTemplate
namespace Binary64

/-! ## Rounding -/

theorem roundHalfEven_mul {k : Nat} (hk : 0 < k) (num den : Nat) :
    roundHalfEven (num * k) (den * k) = roundHalfEven num den := by
  have hquotient : num * k / (den * k) = num / den := Nat.mul_div_mul_right num den hk
  have hremainder : num * k % (den * k) = num % den * k := Nat.mul_mod_mul_right k num den
  have hbelow : 2 * (num % den * k) < den * k ↔ 2 * (num % den) < den := by
    rw [← Nat.mul_assoc, Nat.mul_lt_mul_right hk]
  have habove : den * k < 2 * (num % den * k) ↔ den < 2 * (num % den) := by
    rw [← Nat.mul_assoc, Nat.mul_lt_mul_right hk]
  simp only [roundHalfEven, hquotient, hremainder, hbelow, habove]

theorem roundHalfEven_of_multiple {den : Nat} (hden : 0 < den) (n : Nat) :
    roundHalfEven (n * den) den = n := by
  rw [roundHalfEven, Nat.mul_mod_left, Nat.mul_div_cancel n hden]
  simp [hden]

/-- A common factor does not matter. -/
theorem nearestMagnitude_mul {k : Nat} (hk : 0 < k) (num den : Nat) :
    nearestMagnitude (num * k) (den * k) = nearestMagnitude num den := by
  have hunits : num * k * unitsPerOne = num * unitsPerOne * k := Nat.mul_right_comm _ _ _
  have hquotient : num * unitsPerOne * k / (den * k) = num * unitsPerOne / den :=
    Nat.mul_div_mul_right _ _ hk
  have hround : ∀ p, roundHalfEven (num * unitsPerOne * k) (den * k * p) =
      roundHalfEven (num * unitsPerOne) (den * p) := by
    intro p
    rw [Nat.mul_right_comm den k p, roundHalfEven_mul hk]
  simp only [nearestMagnitude, hunits, hquotient, hround]

/-- **Only the quotient matters.** -/
theorem nearestMagnitude_eq_of_ratio_eq {num den num' den' : Nat} (hden : 0 < den)
    (hden' : 0 < den') (h : num * den' = num' * den) :
    nearestMagnitude num den = nearestMagnitude num' den' := by
  calc nearestMagnitude num den = nearestMagnitude (num * den') (den * den') :=
        (nearestMagnitude_mul hden' num den).symm
    _ = nearestMagnitude (num' * den) (den' * den) := by rw [h, Nat.mul_comm den den']
    _ = nearestMagnitude num' den' := nearestMagnitude_mul hden num' den'

/-! ## Doubles -/

theorem unitsPerOne_pos : 0 < unitsPerOne := by
  unfold unitsPerOne
  generalize unitExponent = k
  exact Nat.pow_pos (by decide)

/-- The significand of a normal number has fifty-three bits. -/
theorem log2_normal {fraction exponent : Nat} (h : fraction < leadingBit) :
    Nat.log2 ((leadingBit + fraction) * Nat.pow 2 exponent) = 52 + exponent := by
  have hpos : 0 < Nat.pow 2 exponent := Nat.pow_pos (by decide)
  have hbit : leadingBit = 2 ^ 52 := by decide
  rw [hbit] at h ⊢
  refine (Nat.log2_eq_iff (Nat.ne_of_gt (Nat.mul_pos (by omega) hpos))).mpr ⟨?_, ?_⟩
  · rw [Nat.pow_add]
    exact Nat.mul_le_mul_right _ (by omega)
  · rw [show 52 + exponent + 1 = 53 + exponent by omega, Nat.pow_add]
    exact Nat.mul_lt_mul_of_pos_right (by omega) hpos

/-- A number of units below the leading bit is its own magnitude. -/
theorem nearestMagnitude_subnormal {fraction : Nat} (h : fraction < leadingBit) :
    nearestMagnitude fraction unitsPerOne = fraction := by
  have hunits : fraction * unitsPerOne / unitsPerOne = fraction :=
    Nat.mul_div_cancel _ unitsPerOne_pos
  have hexcess : Nat.log2 fraction - 52 = 0 := by
    rcases Nat.eq_zero_or_pos fraction with rfl | hpos
    · decide
    · have hbit : leadingBit = 2 ^ 52 := by decide
      rw [hbit] at h
      have hlt := (Nat.log2_lt (Nat.ne_of_gt hpos)).mpr h
      omega
  have hone : Nat.pow 2 0 = 1 := rfl
  simp only [nearestMagnitude, hunits, hexcess, hone, Nat.zero_mul, Nat.zero_add, Nat.mul_one]
  exact roundHalfEven_of_multiple unitsPerOne_pos fraction

/-- A significand of fifty-three bits, as many times doubled as the exponent says, has
that significand and exponent for its magnitude. -/
theorem nearestMagnitude_normal {fraction exponent : Nat} (h : fraction < leadingBit) :
    nearestMagnitude ((leadingBit + fraction) * Nat.pow 2 exponent) unitsPerOne =
      (exponent + 1) * leadingBit + fraction := by
  have hpos : 0 < Nat.pow 2 exponent := Nat.pow_pos (by decide)
  have hunits : (leadingBit + fraction) * Nat.pow 2 exponent * unitsPerOne / unitsPerOne =
      (leadingBit + fraction) * Nat.pow 2 exponent := Nat.mul_div_cancel _ unitsPerOne_pos
  have hexcess : 52 + exponent - 52 = exponent := by omega
  have hround : roundHalfEven ((leadingBit + fraction) * Nat.pow 2 exponent * unitsPerOne)
      (unitsPerOne * Nat.pow 2 exponent) = leadingBit + fraction := by
    rw [Nat.mul_assoc, Nat.mul_comm (Nat.pow 2 exponent)]
    exact roundHalfEven_of_multiple (Nat.mul_pos unitsPerOne_pos hpos) _
  simp only [nearestMagnitude, hunits, log2_normal h, hexcess, hround]
  rw [Nat.succ_mul, Nat.add_assoc]

/-- **A double is its own nearest double.** -/
theorem nearestMagnitude_scaled (magnitude : Nat) :
    nearestMagnitude (scaled magnitude) unitsPerOne = magnitude := by
  have hfraction : magnitude % leadingBit < leadingBit := Nat.mod_lt _ (by decide)
  have hsplit : leadingBit * (magnitude / leadingBit) + magnitude % leadingBit = magnitude :=
    Nat.div_add_mod magnitude leadingBit
  unfold scaled
  cases hexponent : magnitude / leadingBit with
  | zero =>
    rw [hexponent, Nat.mul_zero, Nat.zero_add] at hsplit
    simp only [if_true]
    rw [nearestMagnitude_subnormal hfraction, hsplit]
  | succ exponent =>
    rw [hexponent] at hsplit
    simp only [Nat.succ_ne_zero, if_false, Nat.add_sub_cancel]
    rw [nearestMagnitude_normal hfraction, Nat.mul_comm, hsplit]

end Binary64

/-! ## Decimals -/

namespace Decimal

theorem denominator_pos (d : Decimal) : 0 < d.denominator := Nat.pow_pos (by decide)

/-- A zero at the end may be left out, in a unit that is ten times as large. -/
theorem ratio_of_mod_ten {digits : Nat} (h : digits % 10 = 0) (exponent : Int) :
    numerator ⟨digits / 10, exponent + 1⟩ * denominator ⟨digits, exponent⟩ =
      numerator ⟨digits, exponent⟩ * denominator ⟨digits / 10, exponent + 1⟩ := by
  have hdigits : digits = digits / 10 * 10 := by omega
  simp only [numerator, denominator]
  rcases Int.lt_or_le exponent 0 with hneg | hpos
  · rw [show (exponent + 1).toNat = 0 by omega, show exponent.toNat = 0 by omega,
      show (-exponent).toNat = (-(exponent + 1)).toNat + 1 by omega]
    generalize (-(exponent + 1)).toNat = k
    calc digits / 10 * Nat.pow 10 0 * Nat.pow 10 (k + 1)
        = digits / 10 * 1 * (Nat.pow 10 k * 10) := rfl
      _ = digits / 10 * 10 * 1 * Nat.pow 10 k := by ac_rfl
      _ = digits * Nat.pow 10 0 * Nat.pow 10 k := by rw [← hdigits]
  · rw [show (-(exponent + 1)).toNat = 0 by omega, show (-exponent).toNat = 0 by omega,
      show (exponent + 1).toNat = exponent.toNat + 1 by omega]
    generalize exponent.toNat = k
    calc digits / 10 * Nat.pow 10 (k + 1) * Nat.pow 10 0
        = digits / 10 * (Nat.pow 10 k * 10) * Nat.pow 10 0 := rfl
      _ = digits / 10 * 10 * Nat.pow 10 k * Nat.pow 10 0 := by ac_rfl
      _ = digits * Nat.pow 10 k * Nat.pow 10 0 := by rw [← hdigits]

/-- Zeros at the end do not count. -/
theorem trim_ratio (d : Decimal) :
    d.trim.numerator * d.denominator = d.numerator * d.trim.denominator := by
  fun_induction trim d with
  | case1 d h ih =>
    let e : Decimal := ⟨d.digits / 10, d.exponent + 1⟩
    have hstep : e.numerator * d.denominator = d.numerator * e.denominator :=
      ratio_of_mod_ten h.2 d.exponent
    refine Nat.eq_of_mul_eq_mul_right e.denominator_pos ?_
    calc e.trim.numerator * d.denominator * e.denominator
        = e.trim.numerator * e.denominator * d.denominator := by ac_rfl
      _ = e.numerator * e.trim.denominator * d.denominator := by rw [ih]
      _ = e.numerator * d.denominator * e.trim.denominator := by ac_rfl
      _ = d.numerator * e.denominator * e.trim.denominator := by rw [hstep]
      _ = d.numerator * e.trim.denominator * e.denominator := by ac_rfl
  | case2 d h => rfl

end Decimal

namespace Binary64

theorem readsBack_iff {magnitude : Nat} {d : Decimal} :
    readsBack magnitude d = true ↔ nearestMagnitude d.numerator d.denominator = magnitude := by
  rw [readsBack, beq_iff_eq]

theorem readsBack_trim {magnitude : Nat} {d : Decimal} (h : readsBack magnitude d = true) :
    readsBack magnitude d.trim = true := by
  rw [readsBack_iff] at h ⊢
  rw [← h]
  exact nearestMagnitude_eq_of_ratio_eq d.trim.denominator_pos d.denominator_pos d.trim_ratio

/-- The exact expansion reads back. -/
theorem readsBack_exactDecimal (magnitude : Nat) :
    readsBack magnitude (exactDecimal magnitude) = true := by
  rw [readsBack_iff]
  refine Eq.trans ?_ (nearestMagnitude_scaled magnitude)
  refine nearestMagnitude_eq_of_ratio_eq (Decimal.denominator_pos _) unitsPerOne_pos ?_
  unfold exactDecimal Decimal.numerator Decimal.denominator unitsPerOne
  -- ten to a power is the same powers of five and of two
  generalize unitExponent = k
  rw [show (-(k : Int)).toNat = 0 by omega, show (-(-(k : Int))).toNat = k by omega]
  show scaled magnitude * 5 ^ k * 1 * 2 ^ k = scaled magnitude * 10 ^ k
  rw [Nat.mul_one, Nat.mul_assoc, ← Nat.mul_pow]

/-- **The shortest decimal reads back.** -/
theorem readsBack_shortest (tie : Tie) (magnitude : Nat) :
    readsBack magnitude (shortest tie magnitude) = true := by
  unfold shortest
  split
  · rename_i h
    rw [h, readsBack_iff]
    refine Eq.trans ?_ (nearestMagnitude_scaled 0)
    exact nearestMagnitude_eq_of_ratio_eq (Decimal.denominator_pos _) unitsPerOne_pos
      (by simp [Decimal.numerator, scaled])
  · refine readsBack_trim ?_
    generalize hfound : List.findSome? _ _ = found
    cases found with
    | none => exact readsBack_exactDecimal magnitude
    | some d =>
      obtain ⟨n, -, hgrid⟩ := List.exists_of_findSome?_eq_some hfound
      exact readsBack_of_onGrid? hgrid

end Binary64
end TagTemplate
