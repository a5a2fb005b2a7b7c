import TagTemplate.Character.Alphabetic
import TagTemplate.Character.Numeric
import TagTemplate.Character.WhiteSpace

/-!
# Word characters

A word is a run of alphanumeric characters and underscores.  Keywords, variable
names and function names are words, and a number must not touch one.
-/

namespace TagTemplate
namespace Character

/-- Whether a character is alphabetic or numeric. -/
def isAlphanumeric (c : Char) : Bool := isAlphabetic c || isNumeric c

/-- Whether a character may stand in a word. -/
def isWordChar (c : Char) : Bool := isAlphanumeric c || c == '_'

theorem isWordChar_of_isAlphabetic {c : Char} (h : isAlphabetic c = true) :
    isWordChar c = true := by
  simp [isWordChar, isAlphanumeric, h]

end Character
end TagTemplate
