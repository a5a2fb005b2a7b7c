import TagTemplate.Element.Numeral

/-!
# Reading one element

The first character of an element decides what it is.  A quote starts a string,
an `@` a function, a letter or an underscore a word, and a digit a number; a minus
sign starts a number if a digit follows it directly and is an operator otherwise.
Words and numbers are as long as possible, and white space between elements is
needed only where two of them would run together.

A character that starts no element is an error and is not read.  `exists_reads_read`
states that otherwise at least one character is.
-/

namespace TagTemplate
namespace Element

/-- Reads the longest run of word characters. -/
def readWord (c : Cursor) : String × Cursor := c.takeWhile Character.isWordChar

/-- Reads a variable from its first letter.  A word that starts with an
underscore is read too, and is an error. -/
def readVariable (c : Cursor) : Reading Element :=
  let word := readWord c
  (if isIdentifier word.1.toList then .ok (.var word.1)
    else .error ((Fault.variableName word.1).toError c.position), word.2)

/-- What the error of a missing function name quotes: the character after the
`@`, unless it is white space; or the word there, if it starts with no letter. -/
def wordFound (word : String) (next : Option Char) : String :=
  match next with
  | some ch =>
      if word.isEmpty && !Character.isWhiteSpace ch then String.singleton ch else word
  | none => word

/-- Reads a function from its `@`. -/
def readFunction (c : Cursor) : Reading Element :=
  let word := readWord c.step
  (if isIdentifier word.1.toList then .ok (.function ("@" ++ word.1))
    else .error ((Fault.functionName (wordFound word.1 word.2.peek?)).toError c.position), word.2)

/-- Reads a string from its opening quote. -/
def readString (c : Cursor) : Reading Element :=
  let literal := Quoted.scan c
  (literal.1.map .string, literal.2)

/-- Whether a number starts with `ch`, when `next` is the character after it. -/
def startsNumeral (ch : Char) (next : Option Char) : Bool :=
  ch.isDigit || ch == '-' && next.any Char.isDigit

/-- Reads the element that starts with `ch`, the next character of the cursor. -/
def read (ch : Char) (c : Cursor) : Reading Element :=
  if ch = '"' then readString c
  else if ch = '@' then readFunction c
  else if Character.isAlphabetic ch || ch == '_' then readVariable c
  else if startsNumeral ch c.peekSecond? then Numeral.read c
  else if ch ∈ operatorSymbols then (.ok (.operator ch), c.step)
  else if ch = '$' then (.error (Fault.strayDollar.toError c.position), c)
  else (.error ((Fault.strayCharacter ch).toError c.position), c)

/-! ## What is read -/

theorem reads_readWord (c : Cursor) : Cursor.Reads c (readWord c).1.toList (readWord c).2 :=
  Cursor.reads_takeWhile _ _

theorem reads_step {c : Cursor} {ch : Char} {rest : List Char} (h : c.rest = ch :: rest) :
    Cursor.Reads c [ch] c.step := by
  obtain ⟨cs, p⟩ := c
  obtain rfl : cs = ch :: rest := h
  exact ⟨rfl, rfl⟩

/-- A stretch of characters is read from the front, and an element that is read is
at least one character long. -/
theorem exists_reads_read {c : Cursor} {ch : Char} {rest : List Char} (h : c.rest = ch :: rest) :
    ∃ u, Cursor.Reads c u (read ch c).2 ∧ (u = [] → ∃ error, (read ch c).1 = .error error) := by
  unfold read
  split
  · obtain ⟨u, hu⟩ := Quoted.exists_reads_scan h
    exact ⟨_, hu, by simp⟩
  split
  · exact ⟨_, (reads_step h).trans (reads_readWord c.step), by simp⟩
  split
  · refine ⟨_, reads_readWord c, fun hnil => ?_⟩
    simp [readVariable, hnil, isIdentifier]
  split
  · rename_i hs
    obtain ⟨u, v, -, hr⟩ := Numeral.exists_reads_read c
    refine ⟨_, hr, fun hnil => ?_⟩
    have hlt : (Numeral.read c).2.rest.length < c.rest.length :=
      Numeral.read_rest_length_lt h (by
        simp only [startsNumeral, Bool.or_eq_true, Bool.and_eq_true, beq_iff_eq] at hs
        exact hs.imp_right And.left)
    have heq := hr.rest_eq
    rw [hnil, List.nil_append] at heq
    rw [heq] at hlt
    exact absurd hlt (Nat.lt_irrefl _)
  split
  · exact ⟨_, reads_step h, by simp⟩
  split <;> exact ⟨[], .refl _, fun _ => ⟨_, rfl⟩⟩

end Element
end TagTemplate
