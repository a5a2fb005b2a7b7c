import TagTemplate.Element.Reader
import TagTemplate.Proofs.Reading.Numeral

/-!
# The reader of one element

`Element.read` decides by the first character what the element is.  In the grammar the
kinds of elements are told apart by what they are, so reading back what is spelled means
that no first character belongs to two kinds: letters are not digits, and neither is a
sign, a quote or an `@`.  The one character of two kinds is the minus sign, and the digit
after it decides.

* `spelling_of_read`: what is read is spelled by the characters read.
* `read_of_spelling`: what is spelled is read.
* `Spelling.exists_cons`: an element starts neither with white space nor with a dollar
  sign, so it is not mistaken for what stands around it.
-/

namespace TagTemplate
namespace Element

variable {c d : Cursor} {ch : Char} {element : Element} {tail rest : List Char}

theorem ne_of_isAlphabetic {x : Char} (h : Character.isAlphabetic ch = true)
    (hx : Character.isAlphabetic x = false) : ch ≠ x := by
  rintro rfl
  rw [h] at hx
  exact absurd hx (by decide)

/-- An operator is no white space, starts no other element and closes no tag. -/
theorem of_mem_operatorSymbols {x : Char} (h : x ∈ operatorSymbols) :
    Character.isWhiteSpace x = false ∧ Character.isAlphabetic x = false ∧ x.isDigit = false ∧
      x ∉ ['"', '@', '_', '$'] := by
  simp only [operatorSymbols, List.mem_cons, List.not_mem_nil, or_false] at h
  rcases h with rfl | rfl | rfl | rfl | rfl <;>
    exact ⟨by decide, by decide, by decide, by decide⟩

/-- An identifier starts with a letter and holds word characters only. -/
theorem exists_cons_of_isIdentifier {w : List Char} (h : isIdentifier w = true) :
    ∃ first more, w = first :: more ∧ Character.isAlphabetic first = true ∧
      ∀ x ∈ w, Character.isWordChar x = true := by
  cases w with
  | nil => exact absurd h (by simp [isIdentifier])
  | cons first more =>
    rw [isIdentifier, Bool.and_eq_true, List.all_eq_true] at h
    refine ⟨first, more, rfl, h.1, fun x hx => ?_⟩
    rcases List.mem_cons.mp hx with rfl | hx
    · exact Character.isWordChar_of_isAlphabetic h.1
    · exact h.2 x hx

theorem readWord_of_rest {w : List Char} (h : c.rest = w ++ rest)
    (hw : ∀ x ∈ w, Character.isWordChar x = true) (hrest : Stops Character.isWordChar rest) :
    (readWord c).1 = String.ofList w ∧ (readWord c).2.rest = rest :=
  Cursor.takeWhile_of_rest h hw hrest

/-! ## What is read is spelled -/

theorem spelling_of_readString (hc : c.rest = '"' :: tail)
    (h : readString c = (.ok element, d)) : Spelling c.rest element d.rest := by
  rcases hscan : Quoted.scan c with ⟨error | s, after⟩
  · simp [readString, hscan, Except.map] at h
  · obtain ⟨rfl, rfl⟩ : string s = element ∧ after = d := by
      simpa [readString, hscan, Except.map] using h
    have hspell := Quoted.spelling_of_scan hscan
    rw [Cursor.step_rest hc] at hspell
    have hstring := Spelling.string hspell
    rw [String.ofList_toList] at hstring
    rw [hc]
    exact hstring

theorem spelling_of_readFunction (hc : c.rest = '@' :: tail)
    (h : readFunction c = (.ok element, d)) : Spelling c.rest element d.rest := by
  obtain ⟨hresult, rfl⟩ := Prod.mk.inj h
  split at hresult
  · rename_i hid
    obtain rfl : function ("@" ++ (readWord c.step).1) = element := Except.ok.inj hresult
    have hfunction := Spelling.function hid (Cursor.stops_takeWhile Character.isWordChar c.step)
    have hname : String.ofList ('@' :: (readWord c.step).1.toList) =
        "@" ++ (readWord c.step).1 := by
      rw [← String.toList_inj]
      simp
    rw [hc, ← Cursor.step_rest hc, ← hname,
      Cursor.rest_of_takeWhile Character.isWordChar c.step]
    exact hfunction
  · simp at hresult

theorem spelling_of_readVariable (h : readVariable c = (.ok element, d)) :
    Spelling c.rest element d.rest := by
  obtain ⟨hresult, rfl⟩ := Prod.mk.inj h
  split at hresult
  · rename_i hid
    obtain rfl : var (readWord c).1 = element := Except.ok.inj hresult
    have hvariable := Spelling.var hid (Cursor.stops_takeWhile Character.isWordChar c)
    rw [String.ofList_toList] at hvariable
    rw [Cursor.rest_of_takeWhile Character.isWordChar c]
    exact hvariable
  · simp at hresult

/-- The element that is read is spelled by the characters read. -/
theorem spelling_of_read (hc : c.rest = ch :: tail) (h : read ch c = (.ok element, d)) :
    Spelling c.rest element d.rest := by
  unfold read at h
  split at h
  · rename_i hquote
    rw [hquote] at hc
    exact spelling_of_readString hc h
  split at h
  · rename_i hat
    rw [hat] at hc
    exact spelling_of_readFunction hc h
  split at h
  · exact spelling_of_readVariable h
  split at h
  · rename_i hstart
    exact Numeral.spelling_of_read hc hstart h
  rename_i hstart
  split at h
  · rename_i hoperator
    obtain ⟨rfl, rfl⟩ : operator ch = element ∧ c.step = d := by simpa using h
    rw [Cursor.step_rest hc, hc]
    refine .operator hoperator fun hminus x hx => ?_
    -- a digit after the sign would have made this a number
    have hnext : c.peekSecond? = some x := by rw [Cursor.peekSecond?, hc]; exact hx
    cases hd : x.isDigit with
    | false => rfl
    | true => simp [startsNumeral, hminus, hnext, hd] at hstart
  split at h <;> simp at h

/-! ## What is spelled is read -/

/-- Where a letter stands, the whole word there is a variable. -/
theorem read_of_isAlphabetic (hc : c.rest = ch :: tail) (h : Character.isAlphabetic ch = true) :
    read ch c = (.ok (var (readWord c).1), (readWord c).2) := by
  have hid : isIdentifier (readWord c).1.toList = true := by
    rw [readWord, Cursor.takeWhile_fst_toList, hc,
      List.takeWhile_cons_of_pos (Character.isWordChar_of_isAlphabetic h), isIdentifier, h,
      Bool.true_and]
    exact List.all_takeWhile
  rw [read, if_neg (ne_of_isAlphabetic h (by decide)), if_neg (ne_of_isAlphabetic h (by decide)),
    if_pos (by simp [h]), readVariable]
  simp only [hid, if_true]

/-- An element starts neither with white space nor with a dollar sign. -/
theorem Spelling.exists_cons {input : List Char} (h : Spelling input element rest) :
    ∃ ch tail, input = ch :: tail ∧ Character.isWhiteSpace ch = false ∧ ch ≠ '$' := by
  cases h with
  | var hw hrest =>
    obtain ⟨first, more, rfl, halpha, -⟩ := exists_cons_of_isIdentifier hw
    exact ⟨first, _, rfl, Character.isWhiteSpace_eq_false_of_isWordChar
      (Character.isWordChar_of_isAlphabetic halpha), ne_of_isAlphabetic halpha (by decide)⟩
  | function hw hrest => exact ⟨'@', _, rfl, by decide, by decide⟩
  | @number n _ _ hn hword hpoint hvalue =>
    obtain ⟨ch, tail, heq, hch⟩ := hn.exists_cons_text
    refine ⟨ch, tail ++ rest, by rw [heq, List.cons_append], ?_, ?_⟩
    · rcases hch with hdigit | rfl
      · exact Character.isWhiteSpace_eq_false_of_isWordChar
          (Character.isWordChar_of_isDigit hdigit)
      · decide
    · rintro rfl
      rcases hch with hdigit | hminus
      · exact absurd hdigit (by decide)
      · exact absurd hminus (by decide)
  | string h => exact ⟨'"', _, rfl, by decide, by decide⟩
  | @operator symbol _ hc hminus =>
    obtain ⟨hwhite, -, -, hother⟩ := of_mem_operatorSymbols hc
    refine ⟨symbol, rest, rfl, hwhite, ?_⟩
    rintro rfl
    exact hother (by decide)

/-- An element that is spelled at the cursor is read. -/
theorem read_of_spelling (hc : c.rest = ch :: tail) (h : Spelling c.rest element rest) :
    ∃ d, read ch c = (.ok element, d) ∧ d.rest = rest := by
  generalize hinput : c.rest = input at h
  cases h with
  | @var w _ hw hrest =>
    obtain ⟨first, more, rfl, halpha, hword⟩ := exists_cons_of_isIdentifier hw
    obtain rfl : ch = first := by
      rw [hinput] at hc
      exact (List.cons.inj hc).1.symm
    obtain ⟨hname, hafter⟩ := readWord_of_rest hinput hword hrest
    exact ⟨(readWord c).2, by rw [read_of_isAlphabetic hc halpha, hname], hafter⟩
  | @function w _ hw hrest =>
    obtain rfl : ch = '@' := by
      rw [hinput] at hc
      exact (List.cons.inj hc).1.symm
    obtain ⟨first, more, -, -, hword⟩ := exists_cons_of_isIdentifier hw
    obtain ⟨hname, hafter⟩ := readWord_of_rest (Cursor.step_rest hinput) hword hrest
    refine ⟨(readWord c.step).2, ?_, hafter⟩
    have htext : "@" ++ String.ofList w = String.ofList ('@' :: w) := by
      rw [← String.toList_inj]
      simp
    rw [read, if_neg (by decide), if_pos rfl, readFunction]
    simp only [hname, String.toList_ofList, hw, if_true, htext]
  | @number n _ _ hn hword hpoint hvalue =>
    obtain ⟨d, hd, hafter⟩ := Numeral.read_of_isWritten hn hinput hword hpoint hvalue
    refine ⟨d, ?_, hafter⟩
    obtain ⟨hquote, hat, hletter, hstart⟩ := hn.startsNumeral hc hinput
    rw [read, if_neg hquote, if_neg hat, if_neg hletter, if_pos hstart, hd]
  | @string input value _ hvalue =>
    obtain rfl : ch = '"' := by
      rw [hinput] at hc
      exact (List.cons.inj hc).1.symm
    rw [← Cursor.step_rest hinput] at hvalue
    obtain ⟨d, hd, hafter⟩ := Quoted.scan_of_spelling hvalue
    refine ⟨d, ?_, hafter⟩
    rw [read, if_pos rfl, readString]
    simp only [hd, Except.map]
  | @operator symbol _ hsymbol hminus =>
    obtain rfl : ch = symbol := by
      rw [hinput] at hc
      exact (List.cons.inj hc).1.symm
    obtain ⟨-, halpha, hdigit, hother⟩ := of_mem_operatorSymbols hsymbol
    simp only [List.mem_cons, List.not_mem_nil, or_false, not_or] at hother
    obtain ⟨hquote, hat, hscore, -⟩ := hother
    have hletter : (Character.isAlphabetic ch || ch == '_') = false := by simp [halpha, hscore]
    have hstart : startsNumeral ch c.peekSecond? = false := by
      have hnext : c.peekSecond? = rest.head? := by
        rw [Cursor.peekSecond?, hinput, List.tail_cons]
      rw [startsNumeral, hdigit, Bool.false_or, Bool.and_eq_false_imp, beq_iff_eq, hnext,
        Option.any_eq_false]
      exact hminus
    refine ⟨c.step, ?_, Cursor.step_rest hinput⟩
    rw [read, if_neg hquote, if_neg hat, hletter, if_neg (by decide), hstart,
      if_neg (by decide), if_pos hsymbol]

end Element
end TagTemplate
