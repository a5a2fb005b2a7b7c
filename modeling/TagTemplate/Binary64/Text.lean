import TagTemplate.Binary64.Shortest

/-!
# The text of a double

The two formats that this library writes show the same shortest digits.  They
differ in where scientific notation is used and in the decimal taken of two
equally near ones.  `DoubleStyle` holds these two decisions.
-/

namespace TagTemplate
namespace Binary64

/-- How a format writes finite doubles. -/
structure DoubleStyle where
  /-- Which of two equally near decimals is written. -/
  tie : Tie
  /-- Whether a number is written positionally, by the power of ten of its first
  digit; otherwise it is written in scientific notation. -/
  isPositional : Int → Bool

/-- The text of a finite double: a minus sign where the sign bit is set, also on
a zero, and the shortest decimal that reads back. -/
def DoubleStyle.text (style : DoubleStyle) (x : Binary64) : List Char :=
  let d := shortest style.tie x.magnitude
  let digits := if style.isPositional d.leadingExponent then d.positional else d.scientific
  if x.negative then '-' :: digits else digits

/-- Tags write doubles positionally whatever their size, with a decimal point
that tells them from integers, and of two equally near decimals the larger. -/
def tagStyle : DoubleStyle := ⟨.up, fun _ => true⟩

/-- The text of a double inside a tag.  What is not finite has a word for a text,
which does not read back. -/
def text (x : Binary64) : String :=
  if x.isNaN then "NaN"
  else if x.isFinite then String.ofList (tagStyle.text x)
  else if x.negative then "-inf" else "inf"

end Binary64
end TagTemplate
