import Mathlib
import TagTemplate.Proofs.Numbers.Nearest
import TagTemplate.Proofs.Reading.Token

/-!
# The values of numeric literals

The digits of a literal, of which there may be any number, have an exact value:
`Numeral.value`.  `Lexer.next_numeral` says what becomes of it.  A literal without a point
whose value sixty-four bits hold is that integer.  Any other literal is the nearest double,
with the sign that is written, as long as the value is less than half a step above the
largest finite double; from there on it is refused as no number.

The reader computes the double from one numerator and one denominator; that these make up
the value is `Numeral.value_eq`.
-/

namespace TagTemplate
namespace Numeral

/-- The exact value of a number: its digits before the point, and behind it as many places
as there are digits. -/
def value (n : Numeral) : ℚ :=
  Binary64.withSign n.negative
    (Nat.ofDigitChars 10 n.whole.toList 0 +
      n.fraction.elim 0 fun f => (Nat.ofDigitChars 10 f.toList 0 : ℚ) / 10 ^ f.toList.length)

/-- The number is written without a point, and sixty-four bits hold its value. -/
def FitsInt64 (n : Numeral) : Prop :=
  n.fraction = none ∧ -2 ^ 63 ≤ n.value ∧ n.value ≤ 2 ^ 63 - 1

variable {n : Numeral}

theorem scale_pos (n : Numeral) : 0 < n.scale := Nat.pow_pos (by decide)

/-- All digits over the power of ten are the value. -/
theorem value_eq (n : Numeral) :
    n.value = Binary64.withSign n.negative ((n.digits : ℚ) / n.scale) := by
  obtain ⟨negative, whole, _ | fraction⟩ := n
  · simp [value, digits, scale]
  · have hten : (10 : ℚ) ^ fraction.length ≠ 0 := by positivity
    have hdigits : Nat.ofDigitChars 10 (whole ++ fraction).toList 0 =
        10 ^ fraction.length * Nat.ofDigitChars 10 whole.toList 0 +
          Nat.ofDigitChars 10 fraction.toList 0 := by
      rw [String.toList_append, Nat.ofDigitChars_append, ← String.length_toList]
      exact Nat.ofDigitChars_eq_ofDigitChars_zero
    rw [value, digits, scale]
    simp only [Option.elim_some, Option.getD_some, String.length_toList, hdigits, Nat.pow_eq]
    congr 1
    rw [eq_div_iff (by exact_mod_cast hten), add_mul]
    push_cast
    rw [div_mul_cancel₀ _ hten, mul_comm]

theorem abs_value (n : Numeral) : |n.value| = (n.digits : ℚ) / n.scale := by
  have hpos : (0 : ℚ) ≤ n.digits / n.scale := by positivity
  rw [value_eq, Binary64.withSign]
  split
  · rw [abs_neg, abs_of_nonneg hpos]
  · rw [abs_of_nonneg hpos]

/-- Without a point the value is the integer that is compared with the range. -/
theorem value_of_fraction_eq_none (h : n.fraction = none) : n.value = n.signed := by
  have hscale : n.scale = 1 := by simp [scale, h]
  rw [value_eq, hscale, signed, Binary64.withSign]
  split <;> simp

theorem fitsInt64_iff : n.FitsInt64 ↔
    n.fraction = none ∧ -0x8000000000000000 ≤ n.signed ∧ n.signed < 0x8000000000000000 := by
  refine and_congr_right fun hpoint => ?_
  rw [value_of_fraction_eq_none hpoint]
  have hlow : (-2 ^ 63 : ℚ) ≤ n.signed ↔ -0x8000000000000000 ≤ n.signed := by
    norm_num
    exact_mod_cast Iff.rfl
  have hhigh : (n.signed : ℚ) ≤ 2 ^ 63 - 1 ↔ n.signed < 0x8000000000000000 := by
    norm_num
    exact_mod_cast Int.le_sub_one_iff (n := 0x8000000000000000)
  rw [hlow, hhigh]

/-! ## What a literal stands for -/

/-- A literal that sixty-four bits hold stands for its value. -/
theorem element?_of_fitsInt64 (h : n.FitsInt64) :
    ∃ k : Int64, (k.toInt : ℚ) = n.value ∧ n.element? = some (.integer k) := by
  obtain ⟨hpoint, hlow, hhigh⟩ := fitsInt64_iff.mp h
  refine ⟨Int64.ofInt n.signed, ?_, if_pos ⟨hpoint, hlow, hhigh⟩⟩
  rw [Int64.toInt_ofInt_of_le hlow hhigh, value_of_fraction_eq_none hpoint]

/-- Any other literal stands for the double that is read from its digits. -/
theorem element?_of_not_fitsInt64 (h : ¬ n.FitsInt64) :
    n.element? = (Binary64.ofRatio? n.negative n.digits n.scale).map .double :=
  if_neg (mt fitsInt64_iff.mpr h)

/-- Up to half a step above the largest double the literal stands for the nearest one. -/
theorem element?_of_abs_value_lt (h : ¬ n.FitsInt64) (hvalue : |n.value| < 2 ^ 1024 - 2 ^ 970) :
    ∃ x : Binary64, x.IsNearest n.value ∧ x.negative = n.negative ∧
      n.element? = some (.double x) := by
  rw [abs_value, ← Binary64.isSome_ofRatio?_iff n.negative n.scale_pos,
    Option.isSome_iff_exists] at hvalue
  obtain ⟨x, hx⟩ := hvalue
  refine ⟨x, ?_, Binary64.negative_of_ofRatio? hx, ?_⟩
  · rw [value_eq]
    exact Binary64.isNearest_of_ofRatio? n.scale_pos hx
  · rw [element?_of_not_fitsInt64 h, hx, Option.map_some]

/-- From there on the literal stands for nothing. -/
theorem element?_of_le_abs_value (h : ¬ n.FitsInt64) (hvalue : 2 ^ 1024 - 2 ^ 970 ≤ |n.value|) :
    n.element? = none := by
  rw [abs_value, ← not_lt, ← Binary64.isSome_ofRatio?_iff n.negative n.scale_pos,
    Bool.not_eq_true, Option.isSome_eq_false_iff, Option.isNone_iff_eq_none] at hvalue
  rw [element?_of_not_fitsInt64 h, hvalue, Option.map_none]

/-! ## What the lexer returns for a literal -/

variable {rest : List Char}

/-- A literal is read to its end, and what it stands for is returned; if that is nothing, the
literal is named in the error. -/
theorem read_eq_of_isWritten {c : Cursor} (hn : n.IsWritten) (hc : c.rest = n.text.toList ++ rest)
    (hword : Stops Character.isWordChar rest) (hpoint : Stops (· == '.') rest) :
    read c = (match n.element? with
        | some element => .ok element
        | none => .error ((Fault.unrepresentable n.text).toError c.position),
      ⟨rest, c.position.after n.text.toList⟩) := by
  obtain ⟨hparts, hafter⟩ := readParts_of_rest hn hc hword hpoint
  obtain ⟨_, _, -, hreads⟩ := exists_reads_read c
  have hcursor : (read c).2 = ⟨rest, c.position.after n.text.toList⟩ :=
    Cursor.Reads.unique hreads ⟨hc, rfl⟩ hafter
  have hfraction : n.fraction ≠ some "" := fun hf => hn.fraction_ne_nil "" hf rfl
  have hfollow : n.followFault? rest.head? = none := followFault?_eq_none_iff.mpr ⟨hword, hpoint⟩
  refine Prod.ext ?_ hcursor
  simp only [read, hparts, Cursor.peek?, hafter, resolve, if_neg hfraction, hfollow]
  cases n.element? <;> rfl

/-- What a number starts with starts no word, closes no tag and is no keyword. -/
theorem of_isDigit_or_eq_minus {ch : Char} (h : ch.isDigit = true ∨ ch = '-') :
    Character.isWhiteSpace ch = false ∧ Character.isAlphabetic ch = false ∧ ch ≠ '$' ∧
      ch ≠ '=' := by
  rcases h with hdigit | rfl
  · refine ⟨Character.isWhiteSpace_eq_false_of_isWordChar
      (Character.isWordChar_of_isDigit hdigit),
      Character.isAlphabetic_eq_false_of_isDigit hdigit, ?_, ?_⟩ <;>
    · rintro rfl
      exact absurd hdigit (by decide)
  · decide

end Numeral

namespace Lexer

variable {n : Numeral} {rest : List Char} {mode : Mode} {position : Position}

/-- In a tag, what a literal stands for is the next token. -/
theorem next_of_isWritten (hn : n.IsWritten) (hword : Stops Character.isWordChar rest)
    (hpoint : Stops (· == '.') rest) (hmode : mode ≠ .text) :
    next ⟨⟨n.text.toList ++ rest, position⟩, mode⟩ =
      (match n.element? with
        | some element => .ok ⟨.element element, position⟩
        | none => .error ((Fault.unrepresentable n.text).toError position),
      ⟨⟨rest, position.after n.text.toList⟩, .tag⟩) := by
  let c : Cursor := ⟨n.text.toList ++ rest, position⟩
  obtain ⟨ch, tail, htext, hstart⟩ := hn.exists_cons_text
  obtain ⟨hwhite, halpha, hdollar, hsign⟩ := Numeral.of_isDigit_or_eq_minus hstart
  have hrest : c.rest = n.text.toList ++ rest := rfl
  have hc : c.rest = ch :: (tail ++ rest) := by
    rw [← List.cons_append, ← htext]
  have hplace : mode = .tag ∨
      (mode = .tagStart ∧ ch ≠ '=' ∧ Character.isAlphabetic ch = false) := by
    cases mode with
    | text => exact absurd rfl hmode
    | tagStart => exact .inr ⟨rfl, hsign, halpha⟩
    | tag => exact .inl rfl
  obtain ⟨hquote, hat, hletter, hnumeral⟩ := hn.startsNumeral hc hrest
  have hread : Element.read ch c = Numeral.read c := by
    simp only [Element.read, if_neg hquote, if_neg hat, if_neg hletter, if_pos hnumeral]
  rw [next_of_rest hc hwhite hplace, tagToken_of_rest hc hdollar, hread,
    Numeral.read_eq_of_isWritten hn hrest hword hpoint]
  cases n.element? <;> rfl

/-- **Literals get their exact value.**  Where a literal stands in a tag and neither a
character of a word nor a point follows, the next token is

* the integer with its value, if there is no point and sixty-four bits hold it;
* otherwise the nearest double, of two equally near ones the even one, with the sign that is
  written, as long as the value is less than half a step above the largest double;
* and otherwise no token but the error that names the literal.

Exactly the literal is read. -/
theorem next_numeral (hn : n.IsWritten) (hword : Stops Character.isWordChar rest)
    (hpoint : Stops (· == '.') rest) (hmode : mode ≠ .text) :
    (n.FitsInt64 → ∃ k : Int64, (k.toInt : ℚ) = n.value ∧
      next ⟨⟨n.text.toList ++ rest, position⟩, mode⟩ =
        (.ok ⟨.element (.integer k), position⟩,
          ⟨⟨rest, position.after n.text.toList⟩, .tag⟩)) ∧
    (¬ n.FitsInt64 → |n.value| < 2 ^ 1024 - 2 ^ 970 → ∃ x : Binary64,
      x.IsNearest n.value ∧ x.negative = n.negative ∧
      (∀ y : Binary64, y.IsNearest n.value → y.negative = n.negative → y = x) ∧
      next ⟨⟨n.text.toList ++ rest, position⟩, mode⟩ =
        (.ok ⟨.element (.double x), position⟩,
          ⟨⟨rest, position.after n.text.toList⟩, .tag⟩)) ∧
    (¬ n.FitsInt64 → 2 ^ 1024 - 2 ^ 970 ≤ |n.value| →
      next ⟨⟨n.text.toList ++ rest, position⟩, mode⟩ =
        (.error (.invalid .invalidNumber position s!"'{n.text}' is not a representable number"),
          ⟨⟨rest, position.after n.text.toList⟩, .tag⟩)) := by
  rw [next_of_isWritten hn hword hpoint hmode]
  refine ⟨fun hint => ?_, fun hint hvalue => ?_, fun hint hvalue => ?_⟩
  · obtain ⟨k, hk, helement⟩ := Numeral.element?_of_fitsInt64 hint
    exact ⟨k, hk, by rw [helement]⟩
  · obtain ⟨x, hnearest, hnegative, helement⟩ := Numeral.element?_of_abs_value_lt hint hvalue
    refine ⟨x, hnearest, hnegative, fun y hy hsign => ?_, by rw [helement]⟩
    exact hy.unique hnearest (hsign.trans hnegative.symm)
  · rw [Numeral.element?_of_le_abs_value hint hvalue]
    rfl

/-- The least integer, and a zero with a sign, whose double keeps the sign. -/
theorem next_numeral_of_limits :
    (∃ k : Int64, (k.toInt : ℚ) = -2 ^ 63 ∧
      next ⟨⟨"-9223372036854775808".toList ++ [' '], ⟨2, 7⟩⟩, .tag⟩ =
        (.ok ⟨.element (.integer k), ⟨2, 7⟩⟩, ⟨⟨[' '], ⟨2, 27⟩⟩, .tag⟩)) ∧
    (∃ x : Binary64, x.IsNearest 0 ∧ x.negative = true ∧
      next ⟨⟨"-0.0".toList ++ ['$', '}'], .start⟩, .tagStart⟩ =
        (.ok ⟨.element (.double x), .start⟩, ⟨⟨['$', '}'], ⟨1, 5⟩⟩, .tag⟩)) := by
  constructor
  · obtain ⟨n, hn⟩ : ∃ n : Numeral, n = ⟨true, "9223372036854775808", none⟩ := ⟨_, rfl⟩
    have hwritten : n.IsWritten := by
      subst hn
      exact ⟨by simp, by simp, by simp, by simp⟩
    have htext : n.text.toList = "-9223372036854775808".toList := by
      simp [hn, Numeral.toList_text, Numeral.fractionText]
    have hvalue : n.value = -2 ^ 63 := by
      have hsigned : n.signed = -2 ^ 63 := by
        simp [hn, Numeral.signed, Numeral.digits, Nat.ofDigitChars_cons]
      rw [Numeral.value_of_fraction_eq_none (by rw [hn]), hsigned]
      norm_num
    have hfits : n.FitsInt64 := ⟨by rw [hn], hvalue.ge, by rw [hvalue]; norm_num⟩
    obtain ⟨k, hk, hnext⟩ := (@next_numeral n [' '] .tag ⟨2, 7⟩ hwritten
      (stops_cons.mpr (by decide)) (stops_cons.mpr (by decide)) (by decide)).1 hfits
    rw [htext] at hnext
    refine ⟨k, hk.trans hvalue, hnext.trans ?_⟩
    simp [Position.after, Position.advance]
  · obtain ⟨n, hn⟩ : ∃ n : Numeral, n = ⟨true, "0", some "0"⟩ := ⟨_, rfl⟩
    have hwritten : n.IsWritten := by
      subst hn
      exact ⟨by simp, by simp, by simp, by simp⟩
    have htext : n.text.toList = "-0.0".toList := by
      simp [hn, Numeral.toList_text, Numeral.fractionText]
    have hvalue : n.value = 0 := by
      simp [hn, Numeral.value, Nat.ofDigitChars_cons]
    have hsmall : |n.value| < 2 ^ 1024 - 2 ^ 970 := by
      rw [hvalue, abs_zero, sub_pos]
      exact pow_lt_pow_right₀ (by norm_num) (by norm_num)
    have hpoint : ¬ n.FitsInt64 := fun h => by simp [hn, Numeral.FitsInt64] at h
    obtain ⟨x, hx, hsign, -, hnext⟩ := (@next_numeral n ['$', '}'] .tagStart .start hwritten
      (stops_cons.mpr (by decide)) (stops_cons.mpr (by decide)) (by decide)).2.1 hpoint hsmall
    rw [htext] at hnext
    refine ⟨x, hvalue ▸ hx, hsign.trans (by rw [hn]), hnext.trans ?_⟩
    simp [Position.after, Position.advance, Position.start]

end Lexer
end TagTemplate
