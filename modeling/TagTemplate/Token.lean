import TagTemplate.Element.Basic

/-!
# Tokens

A document is read as a sequence of tokens: stretches of free text, the delimiters
of tags, the keyword of a tag, and its elements.
-/

namespace TagTemplate

/-- What a tag is, by its first word or sign. -/
inductive Keyword where
  /-- `FOR`, which opens a loop. -/
  | openLoop
  /-- `END`, which closes one. -/
  | closeLoop
  /-- The sign `=`, which writes out its elements. -/
  | echo
  deriving DecidableEq, Repr

/-- The keyword that a word is, in any mixture of upper and lower case. -/
def Keyword.ofWord? (word : String) : Option Keyword :=
  let upper := word.toList.map Char.toUpper
  if upper = ['F', 'O', 'R'] then some .openLoop
  else if upper = ['E', 'N', 'D'] then some .closeLoop
  else none

/-- One token of a document. -/
inductive Token where
  /-- Free text, with its escapes resolved. -/
  | text (content : String)
  | tagOpen
  | tagClose
  | keyword (keyword : Keyword)
  | element (element : Element)
  | endOfInput
  deriving DecidableEq

/-- The words by which a token is named in the error of a misplaced one.  They are chosen
here and name the kind only: no document has such an error. -/
def Token.description : Token → String
  | text _ => "text"
  | tagOpen => "start of a tag"
  | tagClose => "end of a tag"
  | keyword _ => "keyword"
  | element _ => "element"
  | endOfInput => "end of the document"

end TagTemplate
