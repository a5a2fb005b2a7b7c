import TagTemplate.Element.Reader
import TagTemplate.Proofs.Reading.Leaves

/-!
# The reader of numbers

A number is read in three parts, and each part takes all it can get.  What is read is
always the text of the numeral that comes out (`rest_of_readParts`); conversely, a
numeral with its digits in place, before a character that cannot belong to a number,
comes out as it is written (`readParts_of_rest`).

`element?_eq_some_iff` says that the value is the one that the grammar gives.
-/

namespace TagTemplate
namespace Numeral

/-! ## The value -/

theorem toInt_bounds (v : Int64) : -0x8000000000000000 ≤ v.toInt ∧ v.toInt < 0x8000000000000000 :=
  ⟨v.le_toInt, v.toInt_lt⟩

/-- Sixty-four bits hold exactly the values of the range. -/
theorem exists_toInt_eq_iff {k : Int} :
    (∃ v : Int64, k = v.toInt) ↔ -0x8000000000000000 ≤ k ∧ k < 0x8000000000000000 := by
  constructor
  · rintro ⟨v, rfl⟩
    exact toInt_bounds v
  · rintro ⟨hlow, hhigh⟩
    exact ⟨Int64.ofInt k, (Int64.toInt_ofInt_of_le hlow hhigh).symm⟩

/-- The reader gives a numeral the element that the grammar gives it. -/
theorem element?_eq_some_iff {n : Numeral} {element : Element} :
    n.element? = some element ↔ n.Denotes element := by
  have hfits := @exists_toInt_eq_iff n.signed
  constructor
  · intro h
    unfold element? at h
    split at h
    · rename_i hint
      obtain rfl := Option.some.inj h
      exact .integer hint.1 (Int64.toInt_ofInt_of_le hint.2.1 hint.2.2).symm
    · rename_i hint
      obtain ⟨value, hvalue, rfl⟩ := Option.map_eq_some_iff.mp h
      refine .double (fun hpoint v hv => hint ⟨hpoint, ?_⟩) hvalue
      exact hfits.mp ⟨v, hv⟩
  · rintro (⟨hpoint, hv⟩ | ⟨hpoint, hvalue⟩)
    · rename_i v
      have hrange := hfits.mp ⟨v, hv⟩
      rw [element?, if_pos ⟨hpoint, hrange⟩, hv, Int64.ofInt_toInt]
    · rw [element?, if_neg, hvalue, Option.map_some]
      rintro ⟨hnone, hrange⟩
      obtain ⟨v, hv⟩ := hfits.mpr hrange
      exact hpoint hnone v hv

/-! ## The text -/

/-- The text of the decimal point and the digits after it. -/
def fractionText (n : Numeral) : List Char :=
  match n.fraction with
  | none => []
  | some fraction => '.' :: fraction.toList

/-- A numeral is written as sign, digits and fraction, in this order. -/
theorem toList_text (n : Numeral) :
    n.text.toList = (if n.negative then ['-'] else []) ++ (n.whole.toList ++ n.fractionText) := by
  obtain ⟨negative, whole, fraction⟩ := n
  cases fraction <;> cases negative <;> simp [text, wholeText, fractionText]

theorem rest_of_readSign (c : Cursor) :
    c.rest = (if (readSign c).1 then ['-'] else []) ++ (readSign c).2.rest := by
  unfold readSign
  split
  · exact Cursor.rest_of_eat? ‹_›
  · rfl

theorem rest_of_readFraction (c : Cursor) (negative : Bool) (whole : String) :
    c.rest = fractionText ⟨negative, whole, (readFraction c).1⟩ ++ (readFraction c).2.rest := by
  unfold readFraction
  split
  · rename_i d hd
    rw [Cursor.rest_of_eat? hd, Cursor.rest_of_takeWhile Char.isDigit d]
    rfl
  · rfl

theorem isDigit_of_mem_readFraction {c : Cursor} {f : String} (hf : f ∈ (readFraction c).1) :
    ∀ x ∈ f.toList, x.isDigit = true := by
  unfold readFraction at hf
  split at hf
  · obtain rfl := Option.some.inj hf
    exact fun x hx => Cursor.of_mem_takeWhile hx
  · exact absurd hf (by simp)

/-- What is read is the text of the numeral that comes out. -/
theorem rest_of_readParts (c : Cursor) :
    c.rest = (readParts c).1.text.toList ++ (readParts c).2.rest := by
  have hsign := rest_of_readSign c
  have hwhole := Cursor.rest_of_takeWhile Char.isDigit (readSign c).2
  have hfraction := rest_of_readFraction ((readSign c).2.takeWhile Char.isDigit).2
    (readSign c).1 ((readSign c).2.takeWhile Char.isDigit).1
  rw [toList_text, List.append_assoc, List.append_assoc]
  rw [hwhole, hfraction] at hsign
  exact hsign

/-- What ends a word ends a run of digits. -/
theorem stops_isDigit {rest : List Char} (h : Stops Character.isWordChar rest) :
    Stops Char.isDigit rest := by
  intro x hx
  cases hd : x.isDigit with
  | false => rfl
  | true => rw [← h x hx, Character.isWordChar_of_isDigit hd]

theorem readSign_of_rest {c : Cursor} (negative : Bool) {ch : Char} {rest : List Char}
    (h : c.rest = (if negative then ['-'] else []) ++ ch :: rest) (hch : ch ≠ '-') :
    (readSign c).1 = negative ∧ (readSign c).2.rest = ch :: rest := by
  unfold readSign
  cases negative with
  | true =>
    rw [Cursor.eat?_of_rest ['-'] h]
    exact ⟨rfl, rfl⟩
  | false =>
    rw [Cursor.eat?_eq_none_of_head_ne h hch.symm]
    exact ⟨rfl, h⟩

theorem readFraction_of_rest {c : Cursor} {n : Numeral} {rest : List Char} (hn : n.IsWritten)
    (h : c.rest = n.fractionText ++ rest) (hword : Stops Character.isWordChar rest)
    (hpoint : Stops (· == '.') rest) :
    (readFraction c).1 = n.fraction ∧ (readFraction c).2.rest = rest := by
  unfold readFraction
  obtain ⟨negative, whole, _ | fraction⟩ := n
  · have hnone : c.eat? ['.'] = none := by
      rw [Cursor.eat?_eq_none_iff, h]
      rintro ⟨t, rfl⟩
      simp at hpoint
    rw [hnone]
    exact ⟨rfl, h⟩
  · have hdigits : Stops Char.isDigit rest := stops_isDigit hword
    have hdot : c.eat? ['.'] = some ⟨fraction.toList ++ rest, c.position.after ['.']⟩ :=
      Cursor.eat?_of_rest ['.'] h
    rw [hdot]
    obtain ⟨htake, hrest⟩ := Cursor.takeWhile_of_rest
      (c := ⟨fraction.toList ++ rest, c.position.after ['.']⟩) rfl
      (hn.isDigit_of_mem_fraction fraction rfl) hdigits
    rw [String.ofList_toList] at htake
    exact ⟨congrArg some htake, hrest⟩

/-- A numeral that is written in front of something else is read as it is. -/
theorem readParts_of_rest {c : Cursor} {n : Numeral} {rest : List Char} (hn : n.IsWritten)
    (h : c.rest = n.text.toList ++ rest) (hword : Stops Character.isWordChar rest)
    (hpoint : Stops (· == '.') rest) :
    (readParts c).1 = n ∧ (readParts c).2.rest = rest := by
  obtain ⟨ch, digits, hdigits⟩ := List.exists_cons_of_ne_nil hn.whole_ne_nil
  have hch : ch ≠ '-' := by
    rintro rfl
    exact absurd (hn.isDigit_of_mem_whole '-' (by simp [hdigits])) (by decide)
  rw [toList_text, List.append_assoc, List.append_assoc, hdigits] at h
  obtain ⟨hsign, hafter⟩ := readSign_of_rest n.negative h hch
  have hstops : Stops Char.isDigit (n.fractionText ++ rest) := by
    unfold fractionText
    split
    · exact stops_isDigit hword
    · simp [Char.isDigit]
  have hwholeRest : (readSign c).2.rest = n.whole.toList ++ (n.fractionText ++ rest) := by
    rw [hafter, hdigits]
    rfl
  obtain ⟨hwhole, hrest⟩ := Cursor.takeWhile_of_rest hwholeRest hn.isDigit_of_mem_whole hstops
  obtain ⟨hfraction, hend⟩ := readFraction_of_rest hn hrest hword hpoint
  refine ⟨?_, hend⟩
  simp only [readParts, hsign, hwhole, hfraction, String.ofList_toList]

/-! ## The reader -/

variable {c d : Cursor} {ch : Char} {element : Element} {tail rest : List Char}

/-- Where a number starts, there are digits before the point. -/
theorem whole_ne_nil_of_startsNumeral (hc : c.rest = ch :: tail)
    (h : Element.startsNumeral ch c.peekSecond? = true) :
    (readParts c).1.whole.toList ≠ [] := by
  have hdigits : (readParts c).1.whole.toList = (readSign c).2.rest.takeWhile Char.isDigit :=
    Cursor.takeWhile_fst_toList Char.isDigit (readSign c).2
  rw [hdigits]
  simp only [Element.startsNumeral, Bool.or_eq_true, Bool.and_eq_true, beq_iff_eq] at h
  rcases h with hdigit | ⟨rfl, hnext⟩
  · have hch : ch ≠ '-' := by
      rintro rfl
      exact absurd hdigit (by decide)
    obtain ⟨-, hsign⟩ := readSign_of_rest false hc hch
    simp [hsign, hdigit]
  · obtain ⟨x, more, rfl, hx⟩ : ∃ x more, tail = x :: more ∧ x.isDigit = true := by
      cases tail with
      | nil => simp [Cursor.peekSecond?, hc] at hnext
      | cons x more => exact ⟨x, more, rfl, by simpa [Cursor.peekSecond?, hc] using hnext⟩
    have hne : x ≠ '-' := by
      rintro rfl
      exact absurd hx (by decide)
    obtain ⟨-, hsign⟩ := readSign_of_rest true hc hne
    simp [hsign, hx]

theorem followFault?_eq_none_iff {n : Numeral} :
    n.followFault? rest.head? = none ↔
      Stops Character.isWordChar rest ∧ Stops (· == '.') rest := by
  cases rest with
  | nil => simp [followFault?]
  | cons x more =>
    simp only [followFault?, List.head?_cons, stops_cons, beq_eq_false_iff_ne]
    split
    · simp_all
    · split <;> simp_all

/-- A numeral is resolved to what it denotes, if its digits are in place and nothing
that belongs to a number follows. -/
theorem resolve_eq_ok_iff {n : Numeral} :
    n.resolve rest.head? = .ok element ↔
      n.fraction ≠ some "" ∧ Stops Character.isWordChar rest ∧ Stops (· == '.') rest ∧
        n.Denotes element := by
  rw [← element?_eq_some_iff, ← and_assoc (a := Stops _ _), ← followFault?_eq_none_iff]
  unfold resolve
  split
  · simp_all
  · cases hfollow : n.followFault? rest.head? with
    | some fault => simp
    | none => cases n.element? <;> simp_all

/-- What is read as a number is spelled by the characters read. -/
theorem spelling_of_read (hc : c.rest = ch :: tail)
    (hstart : Element.startsNumeral ch c.peekSecond? = true)
    (h : read c = (.ok element, d)) : Element.Spelling c.rest element d.rest := by
  obtain ⟨hresult, rfl⟩ := Prod.mk.inj h
  have hresolve : (readParts c).1.resolve (readParts c).2.rest.head? = .ok element := by
    rw [Cursor.peek?] at hresult
    cases hr : (readParts c).1.resolve (readParts c).2.rest.head? with
    | error fault => simp [hr, Except.mapError] at hresult
    | ok value => simpa [hr, Except.mapError] using hresult
  obtain ⟨hfraction, hword, hpoint, hvalue⟩ := resolve_eq_ok_iff.mp hresolve
  have hwritten : (readParts c).1.IsWritten := by
    refine ⟨whole_ne_nil_of_startsNumeral hc hstart, fun x hx => Cursor.of_mem_takeWhile hx,
      fun f hf hnil => hfraction ?_, fun f hf => isDigit_of_mem_readFraction hf⟩
    rw [Option.mem_def.mp hf, String.toList_eq_nil_iff.mp hnil]
  have hspell := Element.Spelling.number hwritten hword hpoint hvalue
  rw [← rest_of_readParts c] at hspell
  exact hspell

/-- A number that is written at the cursor is read. -/
theorem read_of_isWritten {n : Numeral} (hn : n.IsWritten) (hc : c.rest = n.text.toList ++ rest)
    (hword : Stops Character.isWordChar rest) (hpoint : Stops (· == '.') rest)
    (hvalue : n.Denotes element) : ∃ d, read c = (.ok element, d) ∧ d.rest = rest := by
  obtain ⟨hparts, hafter⟩ := readParts_of_rest hn hc hword hpoint
  have hfraction : n.fraction ≠ some "" := fun hf => hn.fraction_ne_nil "" hf rfl
  have hresolve : n.resolve rest.head? = .ok element :=
    resolve_eq_ok_iff.mpr ⟨hfraction, hword, hpoint, hvalue⟩
  refine ⟨(readParts c).2, ?_, hafter⟩
  simp only [read, hparts, Cursor.peek?, hafter, hresolve, Except.mapError]

/-- The text of a number starts with a digit or with a minus sign. -/
theorem IsWritten.exists_cons_text {n : Numeral} (hn : n.IsWritten) :
    ∃ ch tail, n.text.toList = ch :: tail ∧ (ch.isDigit = true ∨ ch = '-') := by
  obtain ⟨digit, digits, hdigits⟩ := List.exists_cons_of_ne_nil hn.whole_ne_nil
  have hdigit : digit.isDigit = true := hn.isDigit_of_mem_whole digit (by simp [hdigits])
  rw [toList_text, hdigits]
  cases n.negative with
  | true => exact ⟨'-', _, rfl, .inr rfl⟩
  | false => exact ⟨digit, _, rfl, .inl hdigit⟩

/-- A written number is told by its first character from a string, a function and a
word, and from an operator by the digit that follows a sign. -/
theorem IsWritten.startsNumeral {n : Numeral} (hn : n.IsWritten) (hch : c.rest = ch :: tail)
    (hc : c.rest = n.text.toList ++ rest) :
    ch ≠ '"' ∧ ch ≠ '@' ∧ ¬ (Character.isAlphabetic ch || ch == '_') = true ∧
      Element.startsNumeral ch c.peekSecond? = true := by
  obtain ⟨digit, digits, hdigits⟩ := List.exists_cons_of_ne_nil hn.whole_ne_nil
  have hdigit : digit.isDigit = true := hn.isDigit_of_mem_whole digit (by simp [hdigits])
  rw [toList_text, hdigits] at hc
  cases hneg : n.negative with
  | true =>
    rw [hneg] at hc
    obtain rfl : ch = '-' := (List.cons.inj (hch.symm.trans hc)).1
    have hnext : c.peekSecond? = some digit := by rw [Cursor.peekSecond?, hc]; rfl
    refine ⟨by decide, by decide, by decide, ?_⟩
    simp [Element.startsNumeral, hnext, hdigit]
  | false =>
    rw [hneg] at hc
    obtain rfl : ch = digit := (List.cons.inj (hch.symm.trans hc)).1
    have hne : ∀ x : Char, x.isDigit = false → ch ≠ x := by
      rintro x hx rfl
      rw [hdigit] at hx
      exact absurd hx (by decide)
    refine ⟨hne _ (by decide), hne _ (by decide), ?_, by simp [Element.startsNumeral, hdigit]⟩
    simp [Character.isAlphabetic_eq_false_of_isDigit hdigit, hne '_' (by decide)]

end Numeral
end TagTemplate
