import Mathlib
import TagTemplate.Json.Basic
import TagTemplate.Proofs.CharacterClasses
import TagTemplate.Proofs.Numbers.Written

/-!
# The texts of numbers and strings in JSON

Numbers are told apart by their texts.  Two texts of doubles that are equal agree on the
sign, and behind it they show decimals of one value, whichever notation they are in; since
each decimal reads back as its double, the doubles agree (`DoubleStyle.text_injective`).  An
integer never has the text of a double, which holds a point or an exponent.

A string is read character by character.  `unescape?` reads one, and the written form of a
character is read as this character whatever follows (`unescape?_escape`), so that a string
ends at its closing quote and nowhere else (`stringText_append_inj`).
-/

namespace TagTemplate

/-! ## Decimals -/

namespace Decimal

/-- A scientific text has all digits in front of the exponent, and a point among them at
most. -/
structure IsScientific (d : Decimal) (significand : List Char) : Prop where
  scientific_eq : d.scientific = significand ++ 'e' ::
    (if d.leadingExponent < 0 then '-' else '+') :: digitsOf d.leadingExponent.natAbs
  of_mem : ∀ c ∈ significand, c.isDigit = true ∨ c = '.'
  filter_isDigit : significand.filter Char.isDigit = digitsOf d.digits
  exists_cons : ∃ first rest, significand = first :: rest ∧ first.isDigit = true

theorem exists_isScientific (d : Decimal) : ∃ significand, d.IsScientific significand := by
  have hdigits : ∀ c ∈ digitsOf d.digits, c.isDigit = true := fun c => isDigit_of_mem_digitsOf
  have hfilter : (digitsOf d.digits).filter Char.isDigit = digitsOf d.digits :=
    List.filter_eq_self.mpr hdigits
  rcases hds : digitsOf d.digits with _ | ⟨first, _ | ⟨second, rest⟩⟩ <;>
    rw [hds] at hdigits hfilter
  · exact absurd hds (digitsOf_ne_nil d.digits)
  · refine ⟨[first], ?_, fun c hc => .inl (hdigits c hc), hfilter.trans hds.symm, first, [], rfl,
      hdigits first (by simp)⟩
    simp only [scientific, hds]
  · refine ⟨first :: '.' :: second :: rest, ?_, fun c hc => ?_, ?_, first, _, rfl,
      hdigits first (by simp)⟩
    · simp only [scientific, hds]
    · rcases List.mem_cons.mp hc with rfl | hc
      · exact .inl (hdigits _ (by simp))
      · rcases List.mem_cons.mp hc with rfl | hc
        · exact .inr rfl
        · exact .inl (hdigits c (List.mem_cons_of_mem _ hc))
    · have hpoint : Char.isDigit '.' = false := by decide
      rw [hds, ← hfilter]
      simp only [List.filter_cons, hpoint, Bool.false_eq_true, if_false]

variable {d e : Decimal}

/-- Equal positional texts show equal values. -/
theorem ratio_of_positional_eq (h : d.positional = e.positional) :
    d.numerator * e.denominator = e.numerator * d.denominator := by
  obtain ⟨whole, fraction, hd⟩ := d.exists_isPositional
  obtain ⟨whole', fraction', he⟩ := e.exists_isPositional
  rw [hd.positional_eq, he.positional_eq] at h
  have hpoint : ∀ ds, Stops Char.isDigit ('.' :: ds) := fun ds => stops_cons.mpr (by decide)
  obtain ⟨rfl, hfraction⟩ := append_inj_of_stops
    (fun c hc => hd.isDigit_of_mem c (List.mem_append_left _ hc))
    (fun c hc => he.isDigit_of_mem c (List.mem_append_left _ hc)) (hpoint _) (hpoint _) h
  obtain rfl : fraction = fraction' := List.tail_eq_of_cons_eq hfraction
  have hd' := hd.value_eq
  have he' := he.value_eq
  generalize Nat.ofDigitChars 10 (whole ++ fraction) 0 = k at hd' he'
  have hpos : 0 < Nat.pow 10 fraction.length := Nat.pow_pos (by decide)
  generalize Nat.pow 10 fraction.length = p at hd' he' hpos
  refine Nat.eq_of_mul_eq_mul_right hpos ?_
  calc d.numerator * e.denominator * p = d.numerator * p * e.denominator := by ring
    _ = e.numerator * p * d.denominator := by rw [← hd', ← he']; ring
    _ = e.numerator * d.denominator * p := by ring

theorem digitsOf_injective : Function.Injective digitsOf := by
  intro m n h
  rw [← ofDigitChars_digitsOf m, h, ofDigitChars_digitsOf]

/-- Equal scientific texts show one decimal. -/
theorem scientific_injective : Function.Injective scientific := by
  intro d e h
  obtain ⟨significand, hd⟩ := d.exists_isScientific
  obtain ⟨significand', he⟩ := e.exists_isScientific
  rw [hd.scientific_eq, he.scientific_eq] at h
  have hplain : ∀ {c : Char}, c.isDigit = true ∨ c = '.' → (c != 'e') = true := by
    rintro c (hc | rfl)
    · rw [bne_iff_ne]
      rintro rfl
      exact absurd hc (by decide)
    · decide
  obtain ⟨rfl, hexponent⟩ := append_inj_of_stops (p := (· != 'e'))
    (fun c hc => hplain (hd.of_mem c hc)) (fun c hc => hplain (he.of_mem c hc))
    (stops_cons.mpr (by decide)) (stops_cons.mpr (by decide)) h
  have hdigits : d.digits = e.digits :=
    digitsOf_injective (hd.filter_isDigit.symm.trans he.filter_isDigit)
  simp only [List.cons.injEq, true_and] at hexponent
  obtain ⟨hsign, habs⟩ := hexponent
  have habs := digitsOf_injective habs
  have hleading : d.leadingExponent = e.leadingExponent := by
    split at hsign <;> split at hsign <;> first | omega | exact absurd hsign (by decide)
  obtain ⟨digits, exponent⟩ := d
  obtain ⟨digits', exponent'⟩ := e
  obtain rfl : digits = digits' := hdigits
  simp only [leadingExponent, pointPlace] at hleading
  obtain rfl : exponent = exponent' := by omega
  rfl

/-- A positional text holds digits and a point. -/
theorem of_mem_positional {c : Char} (h : c ∈ d.positional) : c.isDigit = true ∨ c = '.' := by
  obtain ⟨whole, fraction, hd⟩ := d.exists_isPositional
  rw [hd.positional_eq, List.mem_append, List.mem_cons] at h
  rcases h with h | rfl | h
  · exact .inl (hd.isDigit_of_mem c (List.mem_append_left _ h))
  · exact .inr rfl
  · exact .inl (hd.isDigit_of_mem c (List.mem_append_right _ h))

theorem ne_of_isDigit_or_eq_point {c : Char} (h : c.isDigit = true ∨ c = '.') : c ≠ 'e' := by
  rcases h with h | rfl
  · rintro rfl
    exact absurd h (by decide)
  · decide

/-- The two notations share no text. -/
theorem positional_ne_scientific : d.positional ≠ e.scientific := by
  intro h
  obtain ⟨significand, he⟩ := e.exists_isScientific
  have hexponent : 'e' ∈ d.positional := by
    rw [h, he.scientific_eq]
    simp
  exact ne_of_isDigit_or_eq_point (of_mem_positional hexponent) rfl

end Decimal

/-! ## Numbers -/

namespace Json

/-- The characters of which the texts of numbers are made. -/
def isNumberChar (c : Char) : Bool := c.isDigit || c ∈ ['-', '+', '.', 'e']

theorem isNumberChar_of_isDigit {c : Char} (h : c.isDigit = true) : isNumberChar c = true := by
  rw [isNumberChar, h, Bool.true_or]

/-- A sign is told from the digit after it. -/
theorem sign_append_inj {s t : Bool} {u v : List Char}
    (hu : ∃ first rest, u = first :: rest ∧ first.isDigit = true)
    (hv : ∃ first rest, v = first :: rest ∧ first.isDigit = true)
    (h : (if s then ['-'] else []) ++ u = (if t then ['-'] else []) ++ v) : s = t ∧ u = v := by
  have hstops : ∀ {w : List Char}, (∃ first rest, w = first :: rest ∧ first.isDigit = true) →
      Stops (· == '-') w := by
    rintro w ⟨first, rest, rfl, hdigit⟩
    rw [stops_cons, beq_eq_false_iff_ne]
    rintro rfl
    exact absurd hdigit (by decide)
  have hsign : ∀ b : Bool, ∀ c ∈ (if b then ['-'] else []), (c == '-') = true := by
    intro b c hc
    cases b <;> simp_all
  obtain ⟨hst, huv⟩ := append_inj_of_stops (hsign s) (hsign t) (hstops hu) (hstops hv) h
  refine ⟨?_, huv⟩
  cases s <;> cases t <;> simp_all

end Json

namespace Binary64.DoubleStyle

/-- The text of a magnitude, without a sign. -/
def unsigned (style : DoubleStyle) (magnitude : Nat) : List Char :=
  if style.isPositional (shortest style.tie magnitude).leadingExponent then
    (shortest style.tie magnitude).positional
  else (shortest style.tie magnitude).scientific

theorem text_eq (style : DoubleStyle) (x : Binary64) :
    style.text x = (if x.negative then ['-'] else []) ++ style.unsigned x.magnitude := by
  unfold text unsigned
  cases x.negative <;> rfl

/-- The text of a magnitude starts with a digit, has a point or an exponent, and is made of
the characters of numbers. -/
structure IsUnsigned (cs : List Char) : Prop where
  exists_cons : ∃ first rest, cs = first :: rest ∧ first.isDigit = true
  exists_mem : '.' ∈ cs ∨ 'e' ∈ cs
  isNumberChar_of_mem : ∀ c ∈ cs, Json.isNumberChar c = true

theorem isUnsigned_positional (d : Decimal) : IsUnsigned d.positional := by
  obtain ⟨whole, fraction, hd⟩ := d.exists_isPositional
  obtain ⟨first, rest, hwhole⟩ := List.exists_cons_of_ne_nil hd.whole_ne_nil
  refine ⟨⟨first, rest ++ '.' :: fraction, ?_, ?_⟩, .inl ?_, fun c hc => ?_⟩
  · rw [hd.positional_eq, hwhole, List.cons_append]
  · exact hd.isDigit_of_mem first (by simp [hwhole])
  · simp [hd.positional_eq]
  · rcases Decimal.of_mem_positional hc with h | rfl
    · exact Json.isNumberChar_of_isDigit h
    · decide

theorem isUnsigned_scientific (d : Decimal) : IsUnsigned d.scientific := by
  obtain ⟨significand, hd⟩ := d.exists_isScientific
  obtain ⟨first, rest, hfirst, hdigit⟩ := hd.exists_cons
  refine ⟨?_, .inr ?_, fun c hc => ?_⟩
  · rw [hd.scientific_eq, hfirst, List.cons_append]
    exact ⟨first, _, rfl, hdigit⟩
  · simp [hd.scientific_eq]
  · rw [hd.scientific_eq, List.mem_append, List.mem_cons, List.mem_cons] at hc
    rcases hc with hc | rfl | rfl | hc
    · rcases hd.of_mem c hc with h | rfl
      · exact Json.isNumberChar_of_isDigit h
      · decide
    · decide
    · split <;> decide
    · exact Json.isNumberChar_of_isDigit (Decimal.isDigit_of_mem_digitsOf hc)

theorem isUnsigned_unsigned (style : DoubleStyle) (magnitude : Nat) :
    IsUnsigned (style.unsigned magnitude) := by
  unfold unsigned
  split
  · exact isUnsigned_positional _
  · exact isUnsigned_scientific _

/-- Each text of a magnitude reads back, so that two magnitudes do not share one. -/
theorem unsigned_injective (style : DoubleStyle) : Function.Injective style.unsigned := by
  intro magnitude magnitude' h
  have hback := readsBack_iff.mp (readsBack_shortest style.tie magnitude)
  have hback' := readsBack_iff.mp (readsBack_shortest style.tie magnitude')
  unfold unsigned at h
  generalize shortest style.tie magnitude = d at h hback
  generalize shortest style.tie magnitude' = e at h hback'
  rw [← hback, ← hback']
  split at h <;> split at h
  · exact nearestMagnitude_eq_of_ratio_eq d.denominator_pos e.denominator_pos
      (Decimal.ratio_of_positional_eq h)
  · exact absurd h Decimal.positional_ne_scientific
  · exact absurd h.symm Decimal.positional_ne_scientific
  · rw [Decimal.scientific_injective h]

/-- **Doubles have different texts**, the two zeros as well. -/
theorem text_injective (style : DoubleStyle) : Function.Injective style.text := by
  intro x y h
  rw [text_eq, text_eq] at h
  obtain ⟨hnegative, hunsigned⟩ := Json.sign_append_inj
    (style.isUnsigned_unsigned x.magnitude).exists_cons
    (style.isUnsigned_unsigned y.magnitude).exists_cons h
  have hmagnitude := style.unsigned_injective hunsigned
  obtain ⟨negative, magnitude, hlt⟩ := x
  cases hnegative
  cases hmagnitude
  rfl

end Binary64.DoubleStyle

namespace Json

/-- The digits of an integer behind its sign. -/
theorem toList_toString (k : Int) : (toString k).toList =
    (if decide (k < 0) then ['-'] else []) ++ Decimal.digitsOf k.natAbs := by
  cases k with
  | ofNat n =>
    have htext : toString (Int.ofNat n) = n.repr := rfl
    rw [htext, Nat.toList_repr]
    rfl
  | negSucc n =>
    have htext : toString (Int.negSucc n) = "-" ++ (n + 1).repr := rfl
    rw [htext, String.toList_append, Nat.toList_repr]
    simp [Decimal.digitsOf]

theorem of_mem_toString {k : Int} {c : Char} (h : c ∈ (toString k).toList) :
    c.isDigit = true ∨ c = '-' := by
  rw [toList_toString, List.mem_append] at h
  rcases h with h | h
  · split at h <;> simp_all
  · exact .inl (Decimal.isDigit_of_mem_digitsOf h)

theorem exists_cons_digitsOf (n : Nat) :
    ∃ first rest, Decimal.digitsOf n = first :: rest ∧ first.isDigit = true := by
  obtain ⟨first, rest, h⟩ := List.exists_cons_of_ne_nil (Decimal.digitsOf_ne_nil n)
  exact ⟨first, rest, h, Decimal.isDigit_of_mem_digitsOf (n := n) (by rw [h]; simp)⟩

theorem toString_int_injective : Function.Injective (toString : Int → String) := by
  intro j k h
  have hlist := congrArg String.toList h
  rw [toList_toString, toList_toString] at hlist
  obtain ⟨hsign, hdigits⟩ :=
    sign_append_inj (exists_cons_digitsOf _) (exists_cons_digitsOf _) hlist
  have habs := Decimal.digitsOf_injective hdigits
  rw [decide_eq_decide] at hsign
  omega

theorem isNumberChar_of_mem_toString {k : Int} {c : Char} (h : c ∈ (toString k).toList) :
    isNumberChar c = true := by
  rcases of_mem_toString h with h | rfl
  · exact isNumberChar_of_isDigit h
  · decide

theorem isNumberChar_of_mem_text {x : Binary64} {c : Char} (h : c ∈ doubleStyle.text x) :
    isNumberChar c = true := by
  rw [Binary64.DoubleStyle.text_eq, List.mem_append] at h
  rcases h with h | h
  · split at h <;> simp_all [isNumberChar]
  · exact (doubleStyle.isUnsigned_unsigned x.magnitude).isNumberChar_of_mem c h

/-- An integer and a double never share a text, whatever their values. -/
theorem toString_ne_text (k : Int) (x : Binary64) : (toString k).toList ≠ doubleStyle.text x := by
  intro h
  have hplain : ∀ c ∈ doubleStyle.unsigned x.magnitude, c.isDigit = true ∨ c = '-' := by
    intro c hc
    refine of_mem_toString (k := k) ?_
    rw [h, Binary64.DoubleStyle.text_eq]
    exact List.mem_append_right _ hc
  rcases (doubleStyle.isUnsigned_unsigned x.magnitude).exists_mem with hmem | hmem
  · exact absurd (hplain _ hmem) (by decide)
  · exact absurd (hplain _ hmem) (by decide)

/-! ## Strings -/

/-- The value of a hexadecimal digit. -/
def hexValue (c : Char) : Nat := if c.isDigit then c.toNat - 48 else c.toNat - 87

/-- Reads one character of a string, which is written as itself or as an escape.  At the
closing quote there is none. -/
def unescape? : List Char → Option (Char × List Char)
  | [] => none
  | '"' :: _ => none
  | '\\' :: '"' :: rest => some ('"', rest)
  | '\\' :: '\\' :: rest => some ('\\', rest)
  | '\\' :: 'b' :: rest => some ('\x08', rest)
  | '\\' :: 't' :: rest => some ('\t', rest)
  | '\\' :: 'n' :: rest => some ('\n', rest)
  | '\\' :: 'f' :: rest => some ('\x0c', rest)
  | '\\' :: 'r' :: rest => some ('\r', rest)
  | '\\' :: 'u' :: _ :: _ :: high :: low :: rest =>
      some (Char.ofNat (16 * hexValue high + hexValue low), rest)
  | c :: rest => some (c, rest)

/-- The written form of a character is read as the character, whatever follows. -/
theorem unescape?_escape (c : Char) (rest : List Char) :
    unescape? (escape c ++ rest) = some (c, rest) := by
  unfold escape
  split
  · simp_all [unescape?]
  split
  · simp_all [unescape?]
  split
  · simp_all [unescape?]
  split
  · simp_all [unescape?]
  split
  · simp_all [unescape?]
  split
  · simp_all [unescape?]
  split
  · simp_all [unescape?]
  split
  · rename_i hcontrol
    have hhex : ∀ n < 0x20, 16 * hexValue (n / 16).digitChar + hexValue (n % 16).digitChar = n := by
      decide
    simp only [List.cons_append, List.nil_append, unescape?, hhex _ hcontrol, Char.ofNat_toNat]
  · simp_all [unescape?]

/-- Written characters are read one by one up to the closing quote. -/
theorem flatMap_escape_append_inj {cs ds r s : List Char}
    (h : cs.flatMap escape ++ '"' :: r = ds.flatMap escape ++ '"' :: s) : cs = ds ∧ r = s := by
  have hread := congrArg unescape? h
  induction cs generalizing ds with
  | nil =>
    cases ds with
    | nil => exact ⟨rfl, List.tail_eq_of_cons_eq h⟩
    | cons d ds =>
      rw [List.flatMap_cons, List.append_assoc, unescape?_escape] at hread
      exact absurd hread (by simp [unescape?])
  | cons c cs ih =>
    cases ds with
    | nil =>
      rw [List.flatMap_cons, List.append_assoc, unescape?_escape] at hread
      exact absurd hread (by simp [unescape?])
    | cons d ds =>
      rw [List.flatMap_cons, List.flatMap_cons, List.append_assoc, List.append_assoc,
        unescape?_escape, unescape?_escape] at hread
      obtain ⟨rfl, hrest⟩ := Prod.mk.inj (Option.some.inj hread)
      obtain ⟨rfl, hr⟩ := ih hrest (congrArg unescape? hrest)
      exact ⟨rfl, hr⟩

theorem toList_stringText (value : String) :
    (stringText value).toList = '"' :: (value.toList.flatMap escape ++ ['"']) := by
  rw [stringText, String.toList_ofList, List.cons_append]

/-- **A string is told from all others, and from what follows it.** -/
theorem stringText_append_inj {u v : String} {r s : List Char}
    (h : (stringText u).toList ++ r = (stringText v).toList ++ s) : u = v ∧ r = s := by
  rw [toList_stringText, toList_stringText, List.cons_append, List.cons_append, List.append_assoc,
    List.append_assoc] at h
  obtain ⟨huv, hrest⟩ := flatMap_escape_append_inj (List.tail_eq_of_cons_eq h)
  exact ⟨String.toList_inj.mp huv, hrest⟩

end Json
end TagTemplate
