import TagTemplate.Element.Basic

/-!
# Numerals

A number in a tag is an optional minus sign, digits, and possibly a decimal point
with more digits.  Digits are those of ASCII.  Without a fraction it is an integer
if sixty-four bits hold it; any other number is the nearest double, and one that is
too large for a double is an error.  A number must not touch a character of a word
or a further decimal point.

All errors of a number stand at its first character.
-/

namespace TagTemplate

/-- A number as it is written. -/
structure Numeral where
  negative : Bool
  whole : String
  /-- The digits after the decimal point, if there is one. -/
  fraction : Option String
  deriving DecidableEq, Repr

namespace Numeral

/-- The text of the sign and the digits before the decimal point. -/
def wholeText (n : Numeral) : String := (if n.negative then "-" else "") ++ n.whole

/-- The text of the number. -/
def text (n : Numeral) : String :=
  match n.fraction with
  | none => n.wholeText
  | some fraction => n.wholeText ++ "." ++ fraction

/-- All digits read as one number. -/
def digits (n : Numeral) : Nat :=
  Nat.ofDigitChars 10 (n.whole ++ n.fraction.getD "").toList 0

/-- The power of ten by which `digits` is to be divided. -/
def scale (n : Numeral) : Nat := Nat.pow 10 (n.fraction.getD "").length

/-- The value of a number without a fraction. -/
def signed (n : Numeral) : Int := if n.negative then -(n.digits : Int) else n.digits

/-- The element that the number stands for, if it has a finite value. -/
def element? (n : Numeral) : Option Element :=
  if n.fraction = none ∧ -0x8000000000000000 ≤ n.signed ∧ n.signed < 0x8000000000000000 then
    some (.integer (Int64.ofInt n.signed))
  else (Binary64.ofRatio? n.negative n.digits n.scale).map .double

/-- Reads the sign, if any. -/
def readSign (c : Cursor) : Bool × Cursor :=
  match c.eat? ['-'] with
  | some d => (true, d)
  | none => (false, c)

/-- Reads the decimal point with the digits after it, if there is a point. -/
def readFraction (c : Cursor) : Option String × Cursor :=
  match c.eat? ['.'] with
  | some d => (some (d.takeWhile Char.isDigit).1, (d.takeWhile Char.isDigit).2)
  | none => (none, c)

/-- The fault of a number before the character that follows it, if any. -/
def followFault? (n : Numeral) (next : Option Char) : Option Fault :=
  match next with
  | none => none
  | some ch =>
      if ch = '.' then some (.secondPoint n.text)
      else if Character.isWordChar ch then some (.numberRunsOn n.text ch)
      else none

/-- The element of a number that stands before a given character, or the fault
for which it is refused. -/
def resolve (n : Numeral) (next : Option Char) : Except Fault Element :=
  if n.fraction = some "" then .error (.missingFraction n.wholeText)
  else
    match n.followFault? next with
    | some fault => .error fault
    | none =>
        match n.element? with
        | some element => .ok element
        | none => .error (.unrepresentable n.text)

/-- Reads the parts of a number. -/
def readParts (c : Cursor) : Numeral × Cursor :=
  let sign := readSign c
  let whole := sign.2.takeWhile Char.isDigit
  let fraction := readFraction whole.2
  (⟨sign.1, whole.1, fraction.1⟩, fraction.2)

/-- Reads a number from its sign or first digit. -/
def read (c : Cursor) : Reading Element :=
  let parts := readParts c
  (Except.mapError (·.toError c.position) (parts.1.resolve parts.2.peek?), parts.2)

/-! ## What is read -/

theorem exists_reads_readSign (c : Cursor) : ∃ u, Cursor.Reads c u (readSign c).2 := by
  unfold readSign
  split
  · exact ⟨_, Cursor.reads_of_eat? ‹_›⟩
  · exact ⟨[], .refl _⟩

theorem exists_reads_readFraction (c : Cursor) : ∃ u, Cursor.Reads c u (readFraction c).2 := by
  unfold readFraction
  split
  · exact ⟨_, (Cursor.reads_of_eat? ‹_›).trans (Cursor.reads_takeWhile _ _)⟩
  · exact ⟨[], .refl _⟩

/-- Reading a number reads the sign, the digits, and the fraction, in this order. -/
theorem exists_reads_read (c : Cursor) :
    ∃ u v, Cursor.Reads c u (readSign c).2 ∧
      Cursor.Reads c (u ++ (readSign c).2.rest.takeWhile Char.isDigit ++ v) (read c).2 := by
  obtain ⟨u, hu⟩ := exists_reads_readSign c
  obtain ⟨v, hv⟩ := exists_reads_readFraction ((readSign c).2.takeWhile Char.isDigit).2
  refine ⟨u, v, hu, (hu.trans ?_).trans hv⟩
  rw [← Cursor.takeWhile_fst_toList]
  exact Cursor.reads_takeWhile _ _

/-- What starts with a digit or a minus sign is read as a number at least one
character long. -/
theorem read_rest_length_lt {c : Cursor} {ch : Char} {rest : List Char}
    (h : c.rest = ch :: rest) (hs : ch.isDigit = true ∨ ch = '-') :
    (read c).2.rest.length < c.rest.length := by
  obtain ⟨u, v, hu, hr⟩ := exists_reads_read c
  refine hr.length_lt fun hnil => ?_
  simp only [List.append_eq_nil_iff] at hnil
  obtain ⟨⟨rfl, hdigits⟩, -⟩ := hnil
  rw [← List.nil_append (readSign c).2.rest, ← hu.rest_eq, h] at hdigits
  rcases hs with hs | rfl
  · simp [hs] at hdigits
  · have hsign : (readSign c).2.rest = rest := by
      simp [readSign, Cursor.eat?, Cursor.startsWith, h]
    have := hu.rest_eq
    rw [hsign, h] at this
    simp at this

end Numeral
end TagTemplate
