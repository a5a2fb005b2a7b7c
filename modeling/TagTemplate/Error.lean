import TagTemplate.Position

/-!
# Errors

An error says why an operation gave no result.  What is wrong inside a document
carries the position of the offending construct; input that is not text at all,
and a failing reader or writer, have no position to point at.

`Error.text` is the one place where an error is put into a line of text.  The
causes that this library itself finds in a document, with their wording, are in
`TagTemplate.Fault`.
-/

namespace TagTemplate

/-- What kind of construct is at fault, for an error inside a document. -/
inductive Category where
  | malformedEscape
  | unterminatedEscape
  | invalidStringEscape
  | unterminatedString
  | invalidNumber
  | invalidVariableName
  | invalidFunctionName
  | emptyTag
  | emptyForTag
  | unmatchedEnd
  | unclosedForLoop
  | unexpectedToken
  deriving DecidableEq, Repr

/-- The words that open the text of an error of the category. -/
def Category.title : Category → String
  | malformedEscape => "Malformed escape"
  | unterminatedEscape => "Unterminated escape"
  | invalidStringEscape => "Invalid string escape"
  | unterminatedString => "Unterminated string"
  | invalidNumber => "Invalid number"
  | invalidVariableName => "Invalid variable name"
  | invalidFunctionName => "Invalid function name"
  | emptyTag => "Empty tag"
  | emptyForTag => "Empty FOR tag"
  | unmatchedEnd => "Unmatched END"
  | unclosedForLoop => "Unclosed FOR loop"
  | unexpectedToken => "Unexpected token"

/-- Why an operation gave no result. -/
inductive Error where
  /-- The input cannot be treated as a document at all. -/
  | invalidArgument (message : String)
  /-- Reading the document or writing its text failed. -/
  | io (message : String)
  /-- A construct of the document is wrong. -/
  | invalid (category : Category) (position : Position) (message : String)
  /-- A `FOR` tag would open more loops than the limit allows. -/
  | nestingTooDeep (position : Position) (limit : Nat)
  deriving DecidableEq, Repr

namespace Error

/-- Where the offending construct starts, for an error inside a document. -/
def position? : Error → Option Position
  | invalidArgument _ => none
  | io _ => none
  | invalid _ position _ => some position
  | nestingTooDeep position _ => some position

/-- A title, the position, and what is wrong there. -/
def located (title : String) (position : Position) (message : String) : String :=
  title ++ " at line " ++ toString position.line ++ ", column " ++
    toString position.column ++ ": " ++ message

/-- The text of an error, without a line end. -/
def text : Error → String
  | invalidArgument message => "Invalid argument: " ++ message
  | io message => "IO error: " ++ message
  | invalid category position message => located category.title position message
  | nestingTooDeep position limit =>
      located "Nesting too deep" position ("more than " ++ toString limit ++ " open FOR loops")

end Error
end TagTemplate
