import TagTemplate.Binary64.Text
import TagTemplate.Character.Word
import TagTemplate.Quoted

/-!
# Elements

The elements are what a tag holds after its keyword: variables, functions,
integers, doubles, strings and operators.  `Element.text` is the text by which an
element is written in a tag.  Any name, any character and any double may be put
into an element; the text reads back as the element where the name is an
identifier, the character an operator and the double finite, and where a string
does not hold the closing delimiter.
-/

namespace TagTemplate

/-- Whether a word is an identifier: a letter, and after it alphanumeric
characters and underscores. -/
def isIdentifier : List Char → Bool
  | [] => false
  | c :: cs => Character.isAlphabetic c && cs.all Character.isWordChar

/-- The characters that are operators inside a tag. -/
def operatorSymbols : List Char := ['+', '-', '*', '/', '^']

/-- One element of a tag. -/
inductive Element where
  | var (name : String)
  /-- A function, whose name includes the `@` that starts it in a tag. -/
  | function (name : String)
  | integer (value : Int64)
  | double (value : Binary64)
  /-- A string, with all escapes resolved. -/
  | string (value : String)
  | operator (symbol : Char)
  deriving DecidableEq

namespace Element

/-- The function of a name, to which the `@` is added unless it starts with one. -/
def ofFunctionName (name : String) : Element :=
  if name.toList.head? = some '@' then function name else function ("@" ++ name)

/-- The text of an element in a tag. -/
def text : Element → String
  | var name => name
  | function name => name
  | integer value => toString value.toInt
  | double value => value.text
  | string value => String.ofList (Quoted.encode value.toList)
  | operator symbol => String.singleton symbol

/-- Equality of elements, where doubles are compared by value. -/
def sameValue : Element → Element → Bool
  | double x, double y => x.sameValue y
  | a, b => a = b

/-! ## Kinds and parts -/

def isVariable : Element → Bool
  | var _ => true
  | _ => false

def isNumber : Element → Bool
  | integer _ => true
  | double _ => true
  | _ => false

/-- Whether the element may be a bound or the step of a loop: all elements but
functions and operators may. -/
def isLoopOperand : Element → Bool
  | function _ => false
  | operator _ => false
  | _ => true

def integer? : Element → Option Int64
  | integer value => some value
  | _ => none

/-- The value of a number as a double; an integer gives the nearest one. -/
def double? : Element → Option Binary64
  | integer value => Binary64.ofRatio? (value < 0) value.toInt.natAbs 1
  | double value => some value
  | _ => none

def string? : Element → Option String
  | string value => some value
  | _ => none

/-- The name of a variable or of a function. -/
def name? : Element → Option String
  | var name => some name
  | function name => some name
  | _ => none

end Element
end TagTemplate
