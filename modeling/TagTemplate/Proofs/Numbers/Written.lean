import TagTemplate.Proofs.Numbers.ReadBack
import TagTemplate.Proofs.Reading.Numeral

/-!
# The texts of numbers

The text of an integer and that of a finite double are the texts of numerals that denote
exactly this number (`exists_numeral_of_integer`, `exists_numeral_of_double`).  Nothing
is assumed of doubles: the digits that are written are the shortest ones that read back,
and the positional text keeps their value wherever the point falls
(`Decimal.exists_isPositional`).
-/

namespace TagTemplate

/-! ## Positional texts -/

namespace Decimal

/-- A positional text has digits on both sides of the point, and without the point they
are the value in units of the last place. -/
structure IsPositional (d : Decimal) (whole fraction : List Char) : Prop where
  positional_eq : d.positional = whole ++ '.' :: fraction
  whole_ne_nil : whole ≠ []
  fraction_ne_nil : fraction ≠ []
  isDigit_of_mem : ∀ c ∈ whole ++ fraction, c.isDigit = true
  value_eq : Nat.ofDigitChars 10 (whole ++ fraction) 0 * d.denominator =
    d.numerator * Nat.pow 10 fraction.length

theorem isDigit_of_mem_digitsOf {n : Nat} {c : Char} (h : c ∈ digitsOf n) :
    c.isDigit = true :=
  Nat.isDigit_of_mem_toDigits (by decide) (by decide) h

theorem digitsOf_ne_nil (n : Nat) : digitsOf n ≠ [] := Nat.toDigits_ne_nil

theorem ofDigitChars_digitsOf (n : Nat) : Nat.ofDigitChars 10 (digitsOf n) 0 = n :=
  Nat.ofDigitChars_ten_toDigits

theorem isDigit_of_mem_replicate {k : Nat} {c : Char} (h : c ∈ List.replicate k '0') :
    c.isDigit = true := by
  rw [List.eq_of_mem_replicate h]
  decide

/-- The point stands in front of all digits. -/
theorem isPositional_of_nonpos {d : Decimal} (h : d.pointPlace ≤ 0) :
    d.IsPositional ['0'] (List.replicate (-d.pointPlace).toNat '0' ++ digitsOf d.digits) where
  positional_eq := by
    simp only [positional, if_pos h]
    rfl
  whole_ne_nil := by simp
  fraction_ne_nil := by simp [digitsOf_ne_nil]
  isDigit_of_mem := by
    intro c hc
    simp only [List.singleton_append, List.mem_cons, List.mem_append] at hc
    rcases hc with rfl | hc | hc
    · decide
    · exact isDigit_of_mem_replicate hc
    · exact isDigit_of_mem_digitsOf hc
  value_eq := by
    have hdigits : Nat.ofDigitChars 10 (['0'] ++ (List.replicate (-d.pointPlace).toNat '0' ++
        digitsOf d.digits)) 0 = d.digits := by
      rw [Nat.ofDigitChars_append, Nat.ofDigitChars_append, Nat.ofDigitChars_replicate_zero]
      exact ofDigitChars_digitsOf d.digits
    have hlength : (List.replicate (-d.pointPlace).toNat '0' ++ digitsOf d.digits).length =
        (-d.exponent).toNat := by
      rw [List.length_append, List.length_replicate]
      unfold pointPlace at h ⊢
      omega
    have hexponent : d.exponent.toNat = 0 := by
      unfold pointPlace at h
      omega
    rw [hdigits, hlength, numerator, denominator, hexponent]
    exact congrArg (· * _) (Nat.mul_one d.digits).symm

/-- The point stands behind all digits. -/
theorem isPositional_of_le {d : Decimal} (h : 0 < d.pointPlace)
    (hle : (digitsOf d.digits).length ≤ d.pointPlace) :
    d.IsPositional (digitsOf d.digits ++ List.replicate d.exponent.toNat '0') ['0'] where
  positional_eq := by
    simp only [positional, if_neg (Int.not_le.mpr h), if_pos hle]
  whole_ne_nil := by simp [digitsOf_ne_nil]
  fraction_ne_nil := by simp
  isDigit_of_mem := by
    intro c hc
    simp only [List.mem_append, List.mem_singleton] at hc
    rcases hc with (hc | hc) | rfl
    · exact isDigit_of_mem_digitsOf hc
    · exact isDigit_of_mem_replicate hc
    · decide
  value_eq := by
    have hdigits : Nat.ofDigitChars 10 (digitsOf d.digits ++
        List.replicate d.exponent.toNat '0' ++ ['0']) 0 =
          10 * (10 ^ d.exponent.toNat * d.digits) := by
      rw [Nat.ofDigitChars_append, Nat.ofDigitChars_append, Nat.ofDigitChars_replicate_zero,
        ofDigitChars_digitsOf]
      exact Nat.ofDigitChars_replicate_zero (n := 1)
    have hexponent : (-d.exponent).toNat = 0 := by
      unfold pointPlace at hle
      omega
    rw [hdigits, numerator, denominator, hexponent]
    show 10 * (10 ^ d.exponent.toNat * d.digits) * 1 = d.digits * 10 ^ d.exponent.toNat * 10
    rw [Nat.mul_one]
    ac_rfl

/-- The point stands among the digits. -/
theorem isPositional_of_lt {d : Decimal} (h : 0 < d.pointPlace)
    (hlt : d.pointPlace < (digitsOf d.digits).length) :
    d.IsPositional ((digitsOf d.digits).take d.pointPlace.toNat)
      ((digitsOf d.digits).drop d.pointPlace.toNat) where
  positional_eq := by
    simp only [positional, if_neg (Int.not_le.mpr h), if_neg (Int.not_le.mpr hlt)]
  whole_ne_nil := by
    intro hnil
    rcases List.take_eq_nil_iff.mp hnil with hzero | hempty
    · omega
    · exact digitsOf_ne_nil _ hempty
  fraction_ne_nil := by
    intro hnil
    have hle := List.drop_eq_nil_iff.mp hnil
    omega
  isDigit_of_mem := by
    intro c hc
    rw [List.take_append_drop] at hc
    exact isDigit_of_mem_digitsOf hc
  value_eq := by
    have hlength : ((digitsOf d.digits).drop d.pointPlace.toNat).length = (-d.exponent).toNat := by
      rw [List.length_drop]
      unfold pointPlace at h hlt ⊢
      omega
    have hexponent : d.exponent.toNat = 0 := by
      unfold pointPlace at hlt
      omega
    rw [List.take_append_drop, ofDigitChars_digitsOf, hlength, numerator, denominator, hexponent]
    exact congrArg (· * _) (Nat.mul_one d.digits).symm

/-- Wherever the point falls, the text is positional. -/
theorem exists_isPositional (d : Decimal) : ∃ whole fraction, d.IsPositional whole fraction := by
  rcases Int.lt_or_le 0 d.pointPlace with hpos | hnonpos
  · rcases Int.lt_or_le d.pointPlace (digitsOf d.digits).length with hlt | hle
    · exact ⟨_, _, isPositional_of_lt hpos hlt⟩
    · exact ⟨_, _, isPositional_of_le hpos hle⟩
  · exact ⟨_, _, isPositional_of_nonpos hnonpos⟩

end Decimal

/-! ## Numerals -/

/-- The text of a finite double is that of a numeral which denotes it. -/
theorem exists_numeral_of_double {x : Binary64} (h : x.isFinite = true) :
    ∃ n : Numeral, n.IsWritten ∧ n.text = x.text ∧ n.Denotes (.double x) := by
  let d := Binary64.shortest .up x.magnitude
  obtain ⟨whole, fraction, hd⟩ := d.exists_isPositional
  have hfinite : x.magnitude < Binary64.infinityMagnitude := of_decide_eq_true h
  have hnumber : x.isNaN = false := decide_eq_false (Nat.not_lt.mpr (Nat.le_of_lt hfinite))
  refine ⟨⟨x.negative, String.ofList whole, some (String.ofList fraction)⟩, ?_, ?_, ?_⟩
  · refine ⟨by simpa using hd.whole_ne_nil, ?_, ?_, ?_⟩
    · intro c hc
      exact hd.isDigit_of_mem c (by simp_all)
    · rintro f ⟨⟩
      simpa using hd.fraction_ne_nil
    · rintro f ⟨⟩ c hc
      exact hd.isDigit_of_mem c (by simp_all)
  · have htext : x.text =
        String.ofList (if x.negative then '-' :: d.positional else d.positional) := by
      simp only [Binary64.text, hnumber, h, Bool.false_eq_true, if_false, if_true]
      rfl
    rw [← String.toList_inj, Numeral.toList_text, htext, hd.positional_eq]
    cases x.negative <;> simp [Numeral.fractionText]
  · refine .double (by simp) ?_
    have hnearest : Binary64.nearestMagnitude (Nat.ofDigitChars 10 (whole ++ fraction) 0)
        (Nat.pow 10 fraction.length) = x.magnitude := by
      rw [← Binary64.readsBack_iff.mp (Binary64.readsBack_shortest .up x.magnitude)]
      exact Binary64.nearestMagnitude_eq_of_ratio_eq (Nat.pow_pos (by decide))
        d.denominator_pos hd.value_eq
    have hdigits : Numeral.digits ⟨x.negative, String.ofList whole, some (String.ofList fraction)⟩ =
        Nat.ofDigitChars 10 (whole ++ fraction) 0 := by
      simp [Numeral.digits]
    have hscale : Numeral.scale ⟨x.negative, String.ofList whole, some (String.ofList fraction)⟩ =
        Nat.pow 10 fraction.length := by
      simp [Numeral.scale]
    rw [hdigits, hscale]
    simp only [Binary64.ofRatio?, hnearest, hfinite, dif_pos]

/-- The text of an integer is that of a numeral which denotes it. -/
theorem exists_numeral_of_integer (v : Int64) :
    ∃ n : Numeral, n.IsWritten ∧ n.text = toString v.toInt ∧ n.Denotes (.integer v) := by
  have hwritten : ∀ (negative : Bool) (k : Nat),
      Numeral.IsWritten ⟨negative, String.ofList (Decimal.digitsOf k), none⟩ := by
    intro negative k
    refine ⟨by simpa using Decimal.digitsOf_ne_nil k, fun c hc => ?_, by simp, by simp⟩
    exact Decimal.isDigit_of_mem_digitsOf (by simpa using hc)
  have hdigits : ∀ (negative : Bool) (k : Nat),
      Numeral.digits ⟨negative, String.ofList (Decimal.digitsOf k), none⟩ = k := by
    intro negative k
    rw [Numeral.digits]
    simp [Decimal.ofDigitChars_digitsOf]
  cases hv : v.toInt with
  | ofNat k =>
    refine ⟨_, hwritten false k, ?_, .integer rfl ?_⟩
    · have htext : toString (Int.ofNat k) = k.repr := rfl
      rw [← String.toList_inj, Numeral.toList_text, htext, Nat.toList_repr]
      simp [Numeral.fractionText, Decimal.digitsOf]
    · rw [Numeral.signed, hdigits, hv]
      rfl
  | negSucc k =>
    refine ⟨_, hwritten true (k + 1), ?_, .integer rfl ?_⟩
    · have htext : toString (Int.negSucc k) = "-" ++ (k + 1).repr := rfl
      rw [← String.toList_inj, Numeral.toList_text, htext, String.toList_append, Nat.toList_repr]
      simp [Numeral.fractionText, Decimal.digitsOf]
    · rw [Numeral.signed, hdigits, hv]
      rfl

end TagTemplate
