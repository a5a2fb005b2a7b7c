import Mathlib
import TagTemplate.Proofs.Numbers.ReadBack

/-!
# The nearest double

`Binary64.nearestMagnitude` divides once and rounds once.  That its answer is the nearest
double is said here of the numbers themselves, without any rounding: no other finite double
is nearer, and where another one is equally near, the one that is taken has an even
significand (`IsNearest`).  With a given sign there is one such double only
(`IsNearest.unique`).

## The grid

A number has its place in a grid of multiples of a power of two, fine enough for fifty-three
bits and no finer than the unit.  Rounding to the grid is rounding to a whole number
(`isNearestInt_roundHalfEven`), and every double lies on the grid or below the numbers that
have this grid (`dvd_scaled_or_lt`).  So what is nearest on the grid is nearest among all
doubles.

## Overflow

`nearestMagnitude_lt_infinityMagnitude_iff`: the nearest double is finite exactly for
numbers below `2 ^ 1024 - 2 ^ 970`.  There the largest finite double and `2 ^ 1024` would be
equally near, and `2 ^ 1024` has the even significand.
-/

namespace TagTemplate
namespace Binary64

/-! ## The values of doubles -/

/-- A number or, with a minus sign, its negation. -/
def withSign (negative : Bool) (q : ℚ) : ℚ := if negative then -q else q

@[simp] theorem withSign_zero (negative : Bool) : withSign negative 0 = 0 := by
  cases negative <;> simp [withSign]

/-- A sign keeps distances. -/
theorem abs_withSign_sub (negative : Bool) (p q : ℚ) :
    |withSign negative p - withSign negative q| = |p - q| := by
  cases negative
  · rfl
  · rw [withSign, withSign, if_pos rfl, if_pos rfl, neg_sub_neg, abs_sub_comm]

theorem abs_sub_withSign (negative : Bool) (p q : ℚ) :
    |p - withSign negative q| = |withSign negative p - q| := by
  cases negative
  · rfl
  · rw [withSign, withSign, if_pos rfl, if_pos rfl, sub_neg_eq_add, ← neg_add', abs_neg]

/-- Numbers of different signs are as far apart as both are from zero. -/
theorem abs_withSign_sub_of_ne {m n : Bool} {p q : ℚ} (hp : 0 ≤ p) (hq : 0 ≤ q) (h : m ≠ n) :
    |withSign m p - withSign n q| = p + q := by
  cases m <;> cases n <;> simp only [withSign, ne_eq, not_true_eq_false, if_true,
    Bool.false_eq_true, if_false] at h ⊢
  · rw [sub_neg_eq_add, abs_of_nonneg (by linarith)]
  · rw [abs_of_nonpos (by linarith)]
    ring

/-- The distance of a magnitude from zero. -/
def size (x : Binary64) : ℚ := scaled x.magnitude / unitsPerOne

/-- The value of a finite double. -/
def value (x : Binary64) : ℚ := withSign x.negative x.size

theorem size_nonneg (x : Binary64) : 0 ≤ x.size := by
  unfold size
  positivity

/-- A finite double is nearest to a number: no other one is nearer, and one with another
value is equally near only if the significand of this one is even. -/
structure IsNearest (x : Binary64) (q : ℚ) : Prop where
  isFinite : x.isFinite = true
  le_of_isFinite : ∀ y : Binary64, y.isFinite = true → |q - x.value| ≤ |q - y.value|
  even_of_tie : ∀ y : Binary64, y.isFinite = true → |q - y.value| = |q - x.value| →
    y.value ≠ x.value → x.magnitude % 2 = 0

/-- The multiple of the unit that a significand and an exponent make.  A significand that
rounding has filled up is carried into the exponent. -/
theorem scaled_of_significand {exponent significand : Nat}
    (hle : significand ≤ 2 * leadingBit) (hlow : exponent = 0 ∨ leadingBit ≤ significand) :
    scaled (exponent * leadingBit + significand) = significand * 2 ^ exponent := by
  have hpos : 0 < leadingBit := by decide
  obtain hsub | ⟨fraction, hfraction, rfl⟩ | rfl : significand < leadingBit ∨
      (∃ fraction, fraction < leadingBit ∧ significand = leadingBit + fraction) ∨
      significand = 2 * leadingBit := by
    rcases Nat.lt_or_ge significand leadingBit with h | h
    · exact .inl h
    · rcases Nat.lt_or_ge significand (2 * leadingBit) with h' | h'
      · exact .inr (.inl ⟨significand - leadingBit, by omega, by omega⟩)
      · exact .inr (.inr (by omega))
  · obtain rfl : exponent = 0 := by omega
    simp [scaled, Nat.div_eq_of_lt hsub, Nat.mod_eq_of_lt hsub]
  · have hsplit : exponent * leadingBit + (leadingBit + fraction) =
        fraction + leadingBit * (exponent + 1) := by ring
    rw [hsplit, scaled, Nat.add_mul_div_left _ _ hpos, Nat.add_mul_mod_self_left,
      Nat.div_eq_of_lt hfraction, Nat.mod_eq_of_lt hfraction]
    simp [Nat.pow_eq]
  · have hsplit : exponent * leadingBit + 2 * leadingBit = 0 + leadingBit * (exponent + 2) := by
      ring
    rw [hsplit, scaled, Nat.add_mul_div_left _ _ hpos, Nat.add_mul_mod_self_left,
      Nat.zero_div, Nat.zero_mod]
    simp only [Nat.zero_add, Nat.add_zero, Nat.succ_ne_zero, if_false, Nat.pow_eq,
      Nat.add_succ_sub_one]
    ring

/-- Every magnitude is a significand with an exponent. -/
theorem exists_significand (magnitude : Nat) : ∃ exponent significand,
    magnitude = exponent * leadingBit + significand ∧ significand < 2 * leadingBit ∧
      (exponent = 0 ∨ leadingBit ≤ significand) := by
  have hfraction : magnitude % leadingBit < leadingBit := Nat.mod_lt _ (by decide)
  have hsplit : leadingBit * (magnitude / leadingBit) + magnitude % leadingBit = magnitude :=
    Nat.div_add_mod magnitude leadingBit
  cases hexponent : magnitude / leadingBit with
  | zero =>
    rw [hexponent] at hsplit
    exact ⟨0, magnitude % leadingBit, by omega, by omega, .inl rfl⟩
  | succ exponent =>
    rw [hexponent] at hsplit
    refine ⟨exponent, leadingBit + magnitude % leadingBit, ?_, by omega, .inr (by omega)⟩
    calc magnitude = leadingBit * (exponent + 1) + magnitude % leadingBit := hsplit.symm
      _ = exponent * leadingBit + (leadingBit + magnitude % leadingBit) := by ring

/-- The next magnitude is one step of the grid further. -/
theorem scaled_lt_scaled_succ (magnitude : Nat) : scaled magnitude < scaled (magnitude + 1) := by
  obtain ⟨exponent, significand, rfl, hlt, hlow⟩ := exists_significand magnitude
  rw [Nat.add_assoc, scaled_of_significand (by omega) hlow,
    scaled_of_significand (by omega) (by omega)]
  exact Nat.mul_lt_mul_of_pos_right (by omega) (by positivity)

theorem scaled_strictMono : StrictMono scaled := strictMono_nat_of_lt_succ scaled_lt_scaled_succ

/-- Every double lies on a grid, or is too small to need one that is so coarse. -/
theorem dvd_scaled_or_lt (exponent magnitude : Nat) :
    2 ^ exponent ∣ scaled magnitude ∨
      (0 < exponent ∧ scaled magnitude < leadingBit * 2 ^ exponent) := by
  obtain ⟨e, significand, rfl, hlt, hlow⟩ := exists_significand magnitude
  rw [scaled_of_significand (by omega) hlow]
  rcases Nat.lt_or_ge e exponent with hless | hmore
  · refine .inr ⟨by omega, ?_⟩
    calc significand * 2 ^ e < 2 * leadingBit * 2 ^ e :=
          Nat.mul_lt_mul_of_pos_right hlt (by positivity)
      _ = leadingBit * 2 ^ (e + 1) := by ring
      _ ≤ leadingBit * 2 ^ exponent :=
          Nat.mul_le_mul_left _ (Nat.pow_le_pow_right (by decide) hless)
  · exact .inl (Dvd.dvd.mul_left (pow_dvd_pow 2 hmore) significand)

/-! ## The nearest whole number -/

/-- A whole number is nearest to a number, and even if another one is equally near. -/
structure IsNearestInt (n : Nat) (q : ℚ) : Prop where
  abs_le : |q - n| ≤ 1 / 2
  even_of_eq : |q - n| = 1 / 2 → n % 2 = 0

/-- What rounding does: it goes down or up by half a step at most, and from the middle to
the even side. -/
theorem roundHalfEven_cases (num den : Nat) :
    (roundHalfEven num den = num / den ∧ 2 * (num % den) ≤ den ∧
        (2 * (num % den) = den → num / den % 2 = 0)) ∨
      (roundHalfEven num den = num / den + 1 ∧ den ≤ 2 * (num % den) ∧
        (2 * (num % den) = den → num / den % 2 = 1)) := by
  simp only [roundHalfEven]
  rcases lt_trichotomy (2 * (num % den)) den with hlow | htie | hhigh
  · rw [if_pos hlow]
    exact .inl ⟨rfl, hlow.le, fun h => absurd h hlow.ne⟩
  · rw [if_neg (by omega), if_neg (by omega)]
    rcases Nat.mod_two_eq_zero_or_one (num / den) with heven | hodd
    · exact .inl ⟨by rw [heven, Nat.add_zero], htie.le, fun _ => heven⟩
    · exact .inr ⟨by rw [hodd], htie.ge, fun _ => hodd⟩
  · rw [if_neg (by omega), if_pos hhigh]
    exact .inr ⟨rfl, hhigh.le, fun h => absurd h hhigh.ne'⟩

/-- Up to half a step above it the lower number is nearest. -/
theorem isNearestInt_of_le {q : Nat} {f : ℚ} (hzero : 0 ≤ f) (hhalf : f ≤ 1 / 2)
    (heven : f = 1 / 2 → q % 2 = 0) : IsNearestInt q (q + f) := by
  have habs : |(q : ℚ) + f - q| = f := by rw [add_sub_cancel_left, abs_of_nonneg hzero]
  exact ⟨by rwa [habs], fun h => heven (by rwa [habs] at h)⟩

/-- From half a step on the upper number is nearest. -/
theorem isNearestInt_of_ge {q : Nat} {f : ℚ} (hhalf : 1 / 2 ≤ f) (hone : f ≤ 1)
    (hodd : f = 1 / 2 → q % 2 = 1) : IsNearestInt (q + 1) (q + f) := by
  have habs : |(q : ℚ) + f - (q + 1 : Nat)| = 1 - f := by
    push_cast
    rw [abs_of_nonpos (by linarith)]
    ring
  refine ⟨by rw [habs]; linarith, fun h => ?_⟩
  rw [habs] at h
  have hq := hodd (by linarith)
  omega

theorem isNearestInt_roundHalfEven {num den : Nat} (hden : 0 < den) :
    IsNearestInt (roundHalfEven num den) (num / den) := by
  have hpos : (0 : ℚ) < den := by exact_mod_cast hden
  have hcases := roundHalfEven_cases num den
  have hlt : num % den < den := Nat.mod_lt num hden
  -- the quotient is a whole number and a fraction
  have hfraction : (num : ℚ) / den = (num / den : Nat) + (num % den : Nat) / den := by
    rw [eq_comm, eq_div_iff hpos.ne', add_mul, div_mul_cancel₀ _ hpos.ne']
    exact_mod_cast Nat.div_add_mod' num den
  rw [hfraction]
  generalize num / den = q at hcases ⊢
  generalize num % den = r at hcases hlt ⊢
  have hmiddle : (r : ℚ) / den = 1 / 2 → 2 * r = den := by
    intro h
    rw [div_eq_div_iff hpos.ne' (by norm_num)] at h
    have heq : r * 2 = 1 * den := by exact_mod_cast h
    omega
  rcases hcases with ⟨hround, hle, htie⟩ | ⟨hround, hle, htie⟩ <;> rw [hround]
  · refine isNearestInt_of_le (by positivity) ?_ fun h => htie (hmiddle h)
    rw [div_le_div_iff₀ hpos (by norm_num)]
    exact_mod_cast (by omega : r * 2 ≤ 1 * den)
  · refine isNearestInt_of_ge ?_ ?_ fun h => htie (hmiddle h)
    · rw [div_le_div_iff₀ (by norm_num) hpos]
      exact_mod_cast (by omega : 1 * den ≤ r * 2)
    · rw [div_le_one hpos]
      exact_mod_cast hlt.le

/-- No whole number is nearer, and one that is equally near leaves an even one. -/
theorem IsNearestInt.nearest {n : Nat} {q : ℚ} (h : IsNearestInt n q) (k : Nat) :
    |q - n| ≤ |q - k| ∧ (|q - k| = |q - n| → k ≠ n → n % 2 = 0) := by
  rcases eq_or_ne k n with rfl | hne
  · exact ⟨le_refl _, fun _ hk => absurd rfl hk⟩
  have hapart : (1 : ℚ) ≤ |(k : ℚ) - n| := by
    have hint : (1 : ℤ) ≤ |(k : ℤ) - n| := Int.one_le_abs (by omega)
    exact_mod_cast hint
  have htriangle : |(k : ℚ) - n| ≤ |q - k| + |q - n| := by
    rw [abs_sub_comm q k]
    simpa using abs_add_le ((k : ℚ) - q) (q - n)
  have hnear := h.abs_le
  exact ⟨by linarith, fun htie _ => h.even_of_eq (by linarith)⟩

theorem roundHalfEven_le {num den k : Nat} (hden : 0 < den) (h : num ≤ k * den) :
    roundHalfEven num den ≤ k := by
  rcases Nat.lt_or_ge (num / den) k with hlt | hge
  · rcases roundHalfEven_cases num den with ⟨hround, -⟩ | ⟨hround, -⟩ <;> omega
  · have hnum : num = k * den := le_antisymm h ((Nat.le_div_iff_mul_le hden).mp hge)
    rw [hnum, roundHalfEven_of_multiple hden]

theorem le_roundHalfEven {num den k : Nat} (hden : 0 < den) (h : k * den ≤ num) :
    k ≤ roundHalfEven num den := by
  have hquotient : k ≤ num / den := (Nat.le_div_iff_mul_le hden).mpr h
  rcases roundHalfEven_cases num den with ⟨hround, -⟩ | ⟨hround, -⟩ <;> omega

/-- Rounding stays below an even number up to half a step in front of it. -/
theorem roundHalfEven_lt_iff {num den k : Nat} (hden : 0 < den) (hk : k % 2 = 0) :
    roundHalfEven num den < k ↔ 2 * num + den < 2 * (k * den) := by
  have hcases := roundHalfEven_cases num den
  have hsplit : num / den * den + num % den = num := Nat.div_add_mod' num den
  have hlt : num % den < den := Nat.mod_lt num hden
  generalize num / den = q at hcases hsplit
  generalize num % den = r at hcases hsplit hlt
  rcases Nat.lt_trichotomy k (q + 1) with hless | rfl | hmore
  · have hmul : k * den ≤ q * den := Nat.mul_le_mul_right den (by omega)
    omega
  · have hmul : (q + 1) * den = q * den + den := Nat.succ_mul q den
    omega
  · have hmul : (q + 2) * den ≤ k * den := Nat.mul_le_mul_right den (by omega)
    have hstep : (q + 2) * den = q * den + 2 * den := Nat.add_mul q 2 den
    omega

/-! ## The nearest magnitude -/

section Nearest

variable {num den : Nat}

/-- The exponent that `nearestMagnitude` takes makes a grid on which the number has
fifty-three bits, or is the least one. -/
theorem units_lt_and_le (hden : 0 < den) (units : Nat) :
    units < 2 * leadingBit * (den * 2 ^ (Nat.log2 (units / den) - 52)) ∧
      (Nat.log2 (units / den) - 52 = 0 ∨
        leadingBit * (den * 2 ^ (Nat.log2 (units / den) - 52)) ≤ units) := by
  have hbit : leadingBit = 2 ^ 52 := by decide
  have hswap : ∀ p q : Nat, p * (den * q) = p * q * den := fun p q => by ring
  generalize hexponent : Nat.log2 (units / den) - 52 = exponent
  rw [hswap, hswap, hbit]
  constructor
  · rw [← Nat.div_lt_iff_lt_mul hden]
    calc units / den < 2 ^ (Nat.log2 (units / den) + 1) := Nat.lt_log2_self
      _ ≤ 2 ^ (53 + exponent) := Nat.pow_le_pow_right (by decide) (by omega)
      _ = 2 * 2 ^ 52 * 2 ^ exponent := by ring
  · rcases Nat.eq_zero_or_pos exponent with hzero | hpos
    · exact .inl hzero
    · have hne : units / den ≠ 0 := by
        intro hzero
        rw [hzero, Nat.log2_zero] at hexponent
        omega
      refine .inr ?_
      rw [← Nat.le_div_iff_mul_le hden]
      calc 2 ^ 52 * 2 ^ exponent = 2 ^ Nat.log2 (units / den) := by
            rw [← Nat.pow_add]
            congr 1
            omega
        _ ≤ units / den := Nat.log2_self_le hne

/-- The nearest magnitude is a significand, rounded on the grid of its exponent. -/
theorem exists_nearestMagnitude_eq (hden : 0 < den) : ∃ exponent significand,
    significand = roundHalfEven (num * unitsPerOne) (den * 2 ^ exponent) ∧
      nearestMagnitude num den = exponent * leadingBit + significand ∧
      significand ≤ 2 * leadingBit ∧ (exponent = 0 ∨ leadingBit ≤ significand) ∧
      num * unitsPerOne < 2 * leadingBit * (den * 2 ^ exponent) ∧
      (exponent = 0 ∨ leadingBit * (den * 2 ^ exponent) ≤ num * unitsPerOne) := by
  obtain ⟨hhigh, hlow⟩ := units_lt_and_le hden (num * unitsPerOne)
  have hgrid : 0 < den * 2 ^ (Nat.log2 (num * unitsPerOne / den) - 52) := by positivity
  refine ⟨_, _, rfl, rfl, roundHalfEven_le hgrid hhigh.le, ?_, hhigh, hlow⟩
  exact hlow.imp_right fun h => le_roundHalfEven hgrid h

/-- On the grid distances are those between whole numbers. -/
theorem abs_sub_mul_grid (hden : 0 < den) (units exponent k : Nat) :
    |(units : ℚ) / den - (k * 2 ^ exponent : Nat)| =
      |(units : ℚ) / (den * 2 ^ exponent : Nat) - k| * 2 ^ exponent := by
  have hpos : (0 : ℚ) < den := by exact_mod_cast hden
  have hgrid : (0 : ℚ) < 2 ^ exponent := by positivity
  rw [← abs_of_pos hgrid, ← abs_mul]
  congr 1
  push_cast
  field_simp

/-- What is below the numbers that have a grid is farther from them than the least of them. -/
theorem abs_sub_lt_of_lt {q low high : ℚ} (hlow : low < high) (hhigh : high ≤ q) :
    |q - high| < |q - low| := by
  rw [abs_of_nonneg (by linarith), abs_of_nonneg (by linarith)]
  linarith

/-- **No magnitude is nearer**, and one that is equally near leaves an even one.  All is
counted in units. -/
theorem nearestMagnitude_nearest (hden : 0 < den) (magnitude : Nat) :
    |(num * unitsPerOne : ℚ) / den - scaled (nearestMagnitude num den)| ≤
        |(num * unitsPerOne : ℚ) / den - scaled magnitude| ∧
      (|(num * unitsPerOne : ℚ) / den - scaled magnitude| =
          |(num * unitsPerOne : ℚ) / den - scaled (nearestMagnitude num den)| →
        scaled magnitude ≠ scaled (nearestMagnitude num den) →
          nearestMagnitude num den % 2 = 0) := by
  obtain ⟨exponent, significand, hround, hmagnitude, hle, hlow, -, hunits⟩ :=
    @exists_nearestMagnitude_eq num den hden
  have hparity : (exponent * leadingBit + significand) % 2 = significand % 2 := by
    unfold leadingBit
    omega
  have hgrid : (0 : ℚ) < 2 ^ exponent := by positivity
  have hnearest := @isNearestInt_roundHalfEven (num * unitsPerOne) (den * 2 ^ exponent)
    (by positivity)
  rw [← hround] at hnearest
  have hdistance := abs_sub_mul_grid hden (num * unitsPerOne) exponent
  rw [hmagnitude, scaled_of_significand hle hlow, hparity, ← Nat.cast_mul]
  rcases dvd_scaled_or_lt exponent magnitude with ⟨k, hk⟩ | ⟨hcoarse, hsmall⟩
  · obtain ⟨hnear, htie⟩ := hnearest.nearest k
    rw [hk, Nat.mul_comm (2 ^ exponent) k, hdistance, hdistance]
    refine ⟨mul_le_mul_of_nonneg_right hnear hgrid.le, fun heq hne => htie ?_ ?_⟩
    · exact mul_right_cancel₀ hgrid.ne' heq
    · rintro rfl
      exact hne rfl
  · have hbound : ((leadingBit * 2 ^ exponent : Nat) : ℚ) ≤ (num * unitsPerOne : Nat) / den := by
      rw [le_div_iff₀ (by exact_mod_cast hden), ← Nat.cast_mul, Nat.mul_assoc, Nat.mul_comm _ den]
      exact_mod_cast hunits.resolve_left hcoarse.ne'
    have hnear := mul_le_mul_of_nonneg_right (hnearest.nearest leadingBit).1 hgrid.le
    rw [← hdistance, ← hdistance] at hnear
    have hfar := abs_sub_lt_of_lt (Nat.cast_lt.mpr hsmall) hbound
    exact ⟨hnear.trans hfar.le, fun heq => absurd heq (hnear.trans_lt hfar).ne'⟩

/-! ## Overflow -/

theorem cast_unitsPerOne : (unitsPerOne : ℚ) = 2 ^ unitExponent := by
  -- the power is not computed, so the exponent is any one
  have hcast : ∀ k, ((Nat.pow 2 k : Nat) : ℚ) = 2 ^ k := fun k => by
    rw [Nat.pow_eq, Nat.cast_pow, Nat.cast_ofNat]
  unfold unitsPerOne
  exact hcast unitExponent

/-- The nearest magnitude is finite below the middle of the last step, counted in units. -/
theorem nearestMagnitude_lt_iff (hden : 0 < den) :
    nearestMagnitude num den < infinityMagnitude ↔
      num * unitsPerOne < (4 * leadingBit - 1) * (den * 2 ^ 2044) := by
  obtain ⟨exponent, significand, hround, hmagnitude, hle, hlow, hhigh, hunits⟩ :=
    @exists_nearestMagnitude_eq num den hden
  have hinfinity : infinityMagnitude = 2047 * leadingBit := by decide
  have hgrid : 0 < den * 2 ^ exponent := Nat.mul_pos hden (Nat.two_pow_pos exponent)
  -- the last step of the exponent is a number of its own: its power is not computed
  obtain ⟨last, hlast⟩ : ∃ last, last = 2044 := ⟨_, rfl⟩
  rw [hmagnitude, hinfinity, ← hlast]
  rcases Nat.lt_trichotomy exponent (last + 1) with hless | hequal | hmore
  · have hpow : den * 2 ^ exponent ≤ den * 2 ^ last :=
      Nat.mul_le_mul_left den (Nat.pow_le_pow_right (by decide) (by omega))
    generalize den * 2 ^ last = step at hpow ⊢
    generalize den * 2 ^ exponent = grid at hpow hgrid hhigh
    clear hround hmagnitude
    unfold leadingBit at hle hlow hhigh hunits ⊢
    omega
  · have hpow : den * 2 ^ exponent = 2 * (den * 2 ^ last) := by
      rw [hequal, Nat.pow_succ]
      ring
    have hcarry := @roundHalfEven_lt_iff (num * unitsPerOne) _ (2 * leadingBit) hgrid (by decide)
    rw [← hround] at hcarry
    generalize den * 2 ^ last = step at hpow ⊢
    generalize den * 2 ^ exponent = grid at hpow hcarry
    clear hround hmagnitude
    unfold leadingBit at hle hlow hcarry ⊢
    omega
  · have hpow : den * 2 ^ (last + 2) ≤ den * 2 ^ exponent :=
      Nat.mul_le_mul_left den (Nat.pow_le_pow_right (by decide) (by omega))
    have hfour : den * 2 ^ (last + 2) = 4 * (den * 2 ^ last) := by
      rw [Nat.pow_succ, Nat.pow_succ]
      ring
    rw [hfour] at hpow
    generalize den * 2 ^ last = step at hpow ⊢
    generalize den * 2 ^ exponent = grid at hpow hgrid hunits
    clear hround hmagnitude hfour
    unfold leadingBit at hle hlow hunits ⊢
    omega

/-- **The nearest double is finite exactly below the middle of the last step.** -/
theorem nearestMagnitude_lt_infinityMagnitude_iff (hden : 0 < den) :
    nearestMagnitude num den < infinityMagnitude ↔ (num : ℚ) / den < 2 ^ 1024 - 2 ^ 970 := by
  have hpos : (0 : ℚ) < den := by exact_mod_cast hden
  have hunits : (0 : ℚ) < 2 ^ 1074 := by positivity
  have hbound : (2 ^ 1024 - 2 ^ 970 : ℚ) * 2 ^ 1074 = (4 * leadingBit - 1) * 2 ^ 2044 := by
    have hbit : (4 * leadingBit : ℚ) = 2 ^ 54 := by
      norm_num [leadingBit]
    rw [hbit, sub_mul, sub_mul, one_mul, ← pow_add, ← pow_add, ← pow_add]
  have hcast : ((4 * leadingBit - 1 : Nat) : ℚ) = 4 * leadingBit - 1 := by
    rw [Nat.cast_sub (by decide)]
    push_cast
    rfl
  rw [nearestMagnitude_lt_iff hden, div_lt_iff₀ hpos, ← mul_lt_mul_iff_left₀ hunits,
    ← Nat.cast_lt (α := ℚ)]
  simp only [Nat.cast_mul, Nat.cast_pow, Nat.cast_ofNat]
  rw [hcast, cast_unitsPerOne, unitExponent, mul_right_comm, hbound, mul_assoc,
    mul_comm (2 ^ 2044 : ℚ)]

/-- A double is read exactly from what is less than half a step above the largest one. -/
theorem isSome_ofRatio?_iff (negative : Bool) (hden : 0 < den) :
    (ofRatio? negative num den).isSome = true ↔ (num : ℚ) / den < 2 ^ 1024 - 2 ^ 970 := by
  rw [← nearestMagnitude_lt_infinityMagnitude_iff hden, ofRatio?]
  split <;> simp_all

end Nearest

/-! ## Signs -/

theorem cast_unitsPerOne_pos : (0 : ℚ) < unitsPerOne := Nat.cast_pos.mpr unitsPerOne_pos

theorem size_lt_size {x y : Binary64} (h : x.magnitude < y.magnitude) : x.size < y.size := by
  refine div_lt_div_of_pos_right ?_ cast_unitsPerOne_pos
  exact_mod_cast scaled_strictMono h

/-- The double that is read has the size nearest to the number without its sign. -/
theorem size_nearest {negative : Bool} {num den : Nat} {x : Binary64} (hden : 0 < den)
    (h : ofRatio? negative num den = some x) (y : Binary64) :
    |(num : ℚ) / den - x.size| ≤ |(num : ℚ) / den - y.size| ∧
      (|(num : ℚ) / den - y.size| = |(num : ℚ) / den - x.size| → y.size ≠ x.size →
        x.magnitude % 2 = 0) := by
  have hmagnitude : x.magnitude = nearestMagnitude num den := by
    unfold ofRatio? at h
    split at h
    · rw [← Option.some.inj h]
    · cases h
  have hunits := cast_unitsPerOne_pos
  have hscaled : ∀ z : Binary64, |(num : ℚ) / den - z.size| =
      |(num * unitsPerOne : ℚ) / den - scaled z.magnitude| / unitsPerOne := by
    intro z
    rw [size, eq_div_iff hunits.ne']
    nth_rewrite 2 [← abs_of_pos hunits]
    rw [← abs_mul, sub_mul, div_mul_cancel₀ _ hunits.ne', div_mul_eq_mul_div]
  obtain ⟨hnear, htie⟩ := @nearestMagnitude_nearest num den hden y.magnitude
  rw [← hmagnitude] at hnear htie
  rw [hscaled, hscaled]
  refine ⟨div_le_div_of_nonneg_right hnear hunits.le, fun heq hne => htie ?_ ?_⟩
  · exact (div_left_inj' hunits.ne').mp heq
  · intro hsame
    exact hne (by rw [size, size, hsame])

/-- **What is read is nearest.**  A double of the other sign is as far from the number as the
sizes of both together, and zero is as near as that. -/
theorem isNearest_of_ofRatio? {negative : Bool} {num den : Nat} {x : Binary64}
    (hden : 0 < den) (h : ofRatio? negative num den = some x) :
    x.IsNearest (withSign negative (num / den)) := by
  have hsign := negative_of_ofRatio? h
  have hnearest := size_nearest hden h
  have hpos : (0 : ℚ) ≤ num / den := by positivity
  generalize (num : ℚ) / den = q at hnearest hpos ⊢
  have hx : |withSign negative q - x.value| = |q - x.size| := by
    rw [value, hsign, abs_withSign_sub]
  have hzero : |q - x.size| ≤ q := by
    obtain ⟨hle, -⟩ := hnearest ⟨false, 0, by decide⟩
    have hsize : size ⟨false, 0, by decide⟩ = 0 := by simp [size, scaled]
    rwa [hsize, sub_zero, abs_of_nonneg hpos] at hle
  refine ⟨isFinite_of_ofRatio? h, fun y _ => ?_, fun y _ htie hne => ?_⟩ <;>
    rw [hx] at * <;> by_cases hy : negative = y.negative
  · rw [value, ← hy, abs_withSign_sub]
    exact (hnearest y).1
  · rw [value, abs_withSign_sub_of_ne hpos y.size_nonneg hy]
    exact hzero.trans (le_add_of_nonneg_right y.size_nonneg)
  · rw [value, ← hy, abs_withSign_sub] at htie
    refine (hnearest y).2 htie fun hsize => hne ?_
    rw [value, value, hsize, hsign, hy]
  · rw [value, abs_withSign_sub_of_ne hpos y.size_nonneg hy] at htie
    have hsize : y.size = 0 := le_antisymm (by linarith) y.size_nonneg
    refine (hnearest y).2 (by rw [hsize, sub_zero, abs_of_nonneg hpos]; linarith) fun hsame => ?_
    exact hne (by rw [value, value, ← hsame, hsize, withSign_zero, withSign_zero])

/-- Of two nearest doubles of one sign, neither is larger than the other: one more than the
smaller one would be nearer than both. -/
theorem IsNearest.magnitude_le {x y : Binary64} {q : ℚ} (hx : x.IsNearest q)
    (hy : y.IsNearest q) (hsign : x.negative = y.negative) : y.magnitude ≤ x.magnitude := by
  by_contra hlt
  rw [Nat.not_le] at hlt
  have hne : x.value ≠ y.value := by
    intro heq
    have hsize := abs_withSign_sub x.negative x.size y.size
    rw [← value, hsign, ← value, heq, sub_self, abs_zero] at hsize
    exact (size_lt_size hlt).ne (sub_eq_zero.mp (abs_eq_zero.mp hsize.symm))
  have htie : |q - x.value| = |q - y.value| :=
    le_antisymm (hx.le_of_isFinite y hy.isFinite) (hy.le_of_isFinite x hx.isFinite)
  have hxeven := hx.even_of_tie y hy.isFinite htie.symm hne.symm
  have hyeven := hy.even_of_tie x hx.isFinite htie hne
  have hfinite : y.magnitude < infinityMagnitude := of_decide_eq_true hy.isFinite
  let z : Binary64 := ⟨x.negative, x.magnitude + 1, by have := y.magnitude_lt; omega⟩
  have hxz : x.size < z.size := size_lt_size (Nat.lt_succ_self _)
  have hzy : z.size < y.size := size_lt_size (by change x.magnitude + 1 < _; omega)
  have hnear := hx.le_of_isFinite z (decide_eq_true (by change x.magnitude + 1 < _; omega))
  -- without the sign the three sizes are in order
  simp only [value, ← hsign, abs_sub_withSign] at htie hnear
  change _ ≤ |withSign x.negative q - z.size| at hnear
  generalize withSign x.negative q = p at htie hnear
  have hleft := le_abs_self (p - x.size)
  have hright := neg_abs_le (p - y.size)
  rcases abs_cases (p - z.size) with ⟨hz, -⟩ | ⟨hz, -⟩ <;> linarith

/-- With a given sign one double at most is nearest. -/
theorem IsNearest.unique {x y : Binary64} {q : ℚ} (hx : x.IsNearest q) (hy : y.IsNearest q)
    (hsign : x.negative = y.negative) : x = y := by
  have hmagnitude := le_antisymm (hy.magnitude_le hx hsign.symm) (hx.magnitude_le hy hsign)
  obtain ⟨negative, magnitude, hlt⟩ := x
  cases hsign
  cases hmagnitude
  rfl

end Binary64
end TagTemplate
