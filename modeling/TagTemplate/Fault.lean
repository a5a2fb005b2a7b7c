import TagTemplate.Error

/-!
# What can be wrong in a document

A fault is one cause for which a document is refused.  Each has a category and a
wording; a fault at a position is an `Error`.  Faults carry what their wording
quotes: the character, word, literal or element that was found.
-/

namespace TagTemplate

/-- One cause for which a document is refused. -/
inductive Fault where
  /-- In free text, a backslash before a character that has no escape there. -/
  | malformedEscape (c : Char)
  /-- In free text, a backslash that ends the document. -/
  | loneBackslash
  /-- In a string literal, a backslash before a character that has no escape there. -/
  | invalidStringEscape (c : Char)
  /-- The tag is closed before the string literal is. -/
  | stringCutByTag
  /-- The document ends before the string literal does. -/
  | stringCutByEnd
  /-- A decimal point with no digit after it; `literal` is what stands before it. -/
  | missingFraction (literal : String)
  /-- A number with a further decimal point after it. -/
  | secondPoint (literal : String)
  /-- A number that touches a character of a word. -/
  | numberRunsOn (literal : String) (next : Char)
  /-- A number too large for a double. -/
  | unrepresentable (literal : String)
  /-- A word in place of a variable that does not start with a letter. -/
  | variableName (word : String)
  /-- An `@` without a name after it. -/
  | functionName (found : String)
  /-- A dollar sign inside a tag that does not close it. -/
  | strayDollar
  /-- A character that starts no element. -/
  | strayCharacter (c : Char)
  /-- The document ends inside a tag. -/
  | unterminatedTag
  /-- A tag with nothing in it. -/
  | emptyTag
  /-- A tag that starts with an element instead of a keyword. -/
  | missingKeyword (found : String)
  /-- A token at a place where the reading of tags never meets it, so that no document has
  this fault. -/
  | misplacedToken (token : String) (place : String)
  /-- A `FOR` tag with nothing after the keyword. -/
  | emptyForTag
  /-- A `FOR` tag whose first element is not a variable. -/
  | loopVariable (found : String)
  /-- A `FOR` tag with an element that is no bound or step. -/
  | loopOperand (found : String)
  /-- A `FOR` tag with too few or too many elements. -/
  | loopLength (count : Nat)
  /-- An `END` tag with an element in it. -/
  | endElement (found : String)
  /-- An `END` tag with no loop open. -/
  | unmatchedEnd
  /-- The document ends with loops open. -/
  | unclosedLoops (count : Nat)
  /-- A loop more than the limit allows. -/
  | nestingTooDeep (limit : Nat)
  deriving DecidableEq, Repr

namespace Fault

/-- The error that a fault is, found at a position. -/
def toError (fault : Fault) (position : Position) : Error :=
  match fault with
  | malformedEscape c =>
      .invalid .malformedEscape position
        s!"'\\{c}' is not a valid escape, only '\\\\' and '\\\x7b' are allowed in text"
  | loneBackslash =>
      .invalid .unterminatedEscape position "the document ends with a lone '\\'"
  | invalidStringEscape c =>
      .invalid .invalidStringEscape position s!"'\\{c}' is not a valid escape inside a string"
  | stringCutByTag =>
      .invalid .unterminatedString position "the tag ends before the closing '\"'"
  | stringCutByEnd =>
      .invalid .unterminatedString position "the document ends before the closing '\"'"
  | missingFraction literal =>
      .invalid .invalidNumber position
        s!"missing digits after the decimal point in '{literal}.'"
  | secondPoint literal =>
      .invalid .invalidNumber position s!"second decimal point after '{literal}'"
  | numberRunsOn literal next =>
      .invalid .invalidNumber position s!"'{literal}' is directly followed by '{next}'"
  | unrepresentable literal =>
      .invalid .invalidNumber position s!"'{literal}' is not a representable number"
  | variableName word =>
      .invalid .invalidVariableName position s!"'{word}' must start with a letter"
  | functionName found =>
      .invalid .invalidFunctionName position
        s!"'@' must be followed by a letter, found '{found}'"
  | strayDollar =>
      .invalid .unexpectedToken position "'$' inside a tag must be followed by '\x7d'"
  | strayCharacter c =>
      .invalid .unexpectedToken position s!"unexpected character '{c}' inside a tag"
  | unterminatedTag =>
      .invalid .unexpectedToken position "the document ends inside a tag, expected '$\x7d'"
  | emptyTag =>
      .invalid .emptyTag position "a tag must contain FOR, END or '='"
  | missingKeyword found =>
      .invalid .unexpectedToken position
        s!"a tag must start with FOR, END or '=', found '{found}'"
  | misplacedToken token place =>
      .invalid .unexpectedToken position s!"unexpected {token} {place}"
  | emptyForTag =>
      .invalid .emptyForTag position "FOR needs a variable, a start and an end expression"
  | loopVariable found =>
      .invalid .invalidVariableName position
        s!"FOR loop variable must be a variable name, found '{found}'"
  | loopOperand found =>
      .invalid .unexpectedToken position s!"'{found}' cannot be a FOR loop bound or step"
  | loopLength count =>
      .invalid .unexpectedToken position s!"FOR takes 3 or 4 elements, found {count}"
  | endElement found =>
      .invalid .unexpectedToken position s!"END takes no elements, found '{found}'"
  | unmatchedEnd =>
      .invalid .unmatchedEnd position "END without an open FOR loop"
  | unclosedLoops count =>
      .invalid .unclosedForLoop position
        s!"{count} FOR loop(s) still open at the end of the document"
  | nestingTooDeep limit => .nestingTooDeep position limit

end Fault
end TagTemplate
