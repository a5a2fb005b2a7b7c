import TagTemplate.Binary64.Text

/-!
# JSON texts

The JSON values that a dump of a document needs, and their two texts: the compact
one without any white space, and the pretty one with one item a line, indented by
two spaces a level.  The fields of an object are written in the order in which the
value holds them.
-/

namespace TagTemplate

/-- A JSON value.  Integers and doubles are kept apart, as their texts are. -/
inductive Json where
  | null
  | integer (value : Int)
  | double (value : Binary64)
  | string (value : String)
  | array (items : List Json)
  | object (fields : List (String × Json))

namespace Json

/-- JSON writes a double positionally where the power of ten of its first digit is
from -5 to 15, and in scientific notation elsewhere.  Of two equally near decimals
it takes the one whose last digit is even. -/
def doubleStyle : Binary64.DoubleStyle := ⟨.even, fun e => -5 ≤ e && e ≤ 15⟩

/-- The written form of one character of a string: the quote, the backslash and the
control characters of ASCII are escaped. -/
def escape (c : Char) : List Char :=
  if c = '"' then ['\\', '"']
  else if c = '\\' then ['\\', '\\']
  else if c = '\x08' then ['\\', 'b']
  else if c = '\t' then ['\\', 't']
  else if c = '\n' then ['\\', 'n']
  else if c = '\x0c' then ['\\', 'f']
  else if c = '\r' then ['\\', 'r']
  else if c.toNat < 0x20 then
    ['\\', 'u', '0', '0', (c.toNat / 16).digitChar, (c.toNat % 16).digitChar]
  else [c]

/-- The text of a string, with its quotes. -/
def stringText (value : String) : String :=
  String.ofList ('"' :: value.toList.flatMap escape ++ ['"'])

/-- The text of a double.  There is none for what is not finite, which becomes
`null`. -/
def doubleText (value : Binary64) : String :=
  if value.isFinite then String.ofList (doubleStyle.text value) else "null"

/-! ## Compact -/

mutual

/-- Appends the compact text of a value to `out`. -/
def compactOnto (out : String) : Json → String
  | null => out ++ "null"
  | integer value => out ++ toString value
  | double value => out ++ doubleText value
  | string value => out ++ stringText value
  | array [] => out ++ "[]"
  | array (item :: items) => compactItemsOnto (compactOnto (out ++ "[") item) items ++ "]"
  | object [] => out ++ "\x7b\x7d"
  | object ((key, value) :: fields) =>
      compactFieldsOnto (compactOnto (out ++ "\x7b" ++ stringText key ++ ":") value) fields ++
        "\x7d"

/-- Appends further items of an array, each after a comma. -/
def compactItemsOnto (out : String) : List Json → String
  | [] => out
  | item :: items => compactItemsOnto (compactOnto (out ++ ",") item) items

/-- Appends further fields of an object, each after a comma. -/
def compactFieldsOnto (out : String) : List (String × Json) → String
  | [] => out
  | (key, value) :: fields =>
      compactFieldsOnto (compactOnto (out ++ "," ++ stringText key ++ ":") value) fields

end

/-- The text of a value without any white space between its parts. -/
def compact (value : Json) : String := compactOnto "" value

/-! ## Pretty -/

/-- A line end and the indentation of a level. -/
def lineStart (level : Nat) : String := String.ofList ('\n' :: List.replicate (2 * level) ' ')

mutual

/-- Appends the pretty text of a value, whose own lines start at `level`, to `out`. -/
def prettyOnto (level : Nat) (out : String) : Json → String
  | null => out ++ "null"
  | integer value => out ++ toString value
  | double value => out ++ doubleText value
  | string value => out ++ stringText value
  | array [] => out ++ "[]"
  | array (item :: items) =>
      prettyItemsOnto level (prettyOnto (level + 1) (out ++ "[" ++ lineStart (level + 1)) item)
        items ++ lineStart level ++ "]"
  | object [] => out ++ "\x7b\x7d"
  | object ((key, value) :: fields) =>
      prettyFieldsOnto level
        (prettyOnto (level + 1)
          (out ++ "\x7b" ++ lineStart (level + 1) ++ stringText key ++ ": ") value)
        fields ++ lineStart level ++ "\x7d"

/-- Appends further items of an array, each after a comma and on a line of its own. -/
def prettyItemsOnto (level : Nat) (out : String) : List Json → String
  | [] => out
  | item :: items =>
      prettyItemsOnto level
        (prettyOnto (level + 1) (out ++ "," ++ lineStart (level + 1)) item) items

/-- Appends further fields of an object, each after a comma and on a line of its own. -/
def prettyFieldsOnto (level : Nat) (out : String) : List (String × Json) → String
  | [] => out
  | (key, value) :: fields =>
      prettyFieldsOnto level
        (prettyOnto (level + 1)
          (out ++ "," ++ lineStart (level + 1) ++ stringText key ++ ": ") value)
        fields

end

/-- The text of a value with one item a line. -/
def pretty (value : Json) : String := prettyOnto 0 "" value

end Json
end TagTemplate
