import TagTemplate.Character.Ranges

/-!
# White space

The Unicode property `White_Space`, twenty-five characters.  The information
separators U+001C to U+001F, the zero-width space and the byte order mark are not
among them.
-/

namespace TagTemplate
namespace Character

/-- The code points with the property `White_Space`. -/
def whiteSpaceRanges : List (Nat × Nat) :=
  [(0x9, 0xD), (0x20, 0x20), (0x85, 0x85), (0xA0, 0xA0), (0x1680, 0x1680), (0x2000, 0x200A),
   (0x2028, 0x2029), (0x202F, 0x202F), (0x205F, 0x205F), (0x3000, 0x3000)]

/-- Whether a character is white space. -/
def isWhiteSpace (c : Char) : Bool := inRanges whiteSpaceRanges c.toNat

end Character
end TagTemplate
