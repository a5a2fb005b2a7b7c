import TagTemplate.Binary64.Nearest
import TagTemplate.Delimiter
import TagTemplate.Element.Numeral
import TagTemplate.Node
import TagTemplate.Proofs.CharacterClasses

/-!
# The grammar of documents

The written language, said without a reader.  Every judgement has the shape
`J input x rest`: the front of `input` is a written form of `x`, and `rest` is what
stands after it.  Keeping what follows as an index is what makes "the longest run"
sayable: a word is over where no word character follows, and a text is over where a
tag opens.

## From characters to documents

* `FreeText.Spelling`: literal text, unit by unit, up to a tag or the end.
* `Quoted.Spelling`: the inside of a string literal with its closing quote.
* `Numeral.IsWritten`, `Numeral.Denotes`: the digits of a number, and its value.
* `Element.Spelling`, `Element.Listing`: one element, and all elements of a tag up to
  and including the closing delimiter, with any white space or none between them.
* `Item.Spelling`: a text, an echo tag, a `FOR` tag or an `END` tag.
* `Body`: items one after another, where a loop is a `FOR` tag, a body and an `END`
  tag.  `Derives` is a body that is the whole document.

The limit on open loops is not part of the grammar: `Node.nesting` is the greatest
number of loops on one path of a tree.
-/

namespace TagTemplate

/-! ## Text -/

/-- The front of the input is literal text.  A text ends where a tag opens or with
the input; a backslash stands only before a backslash or a brace. -/
inductive FreeText.Spelling : List Char → List Char → List Char → Prop where
  | done {rest : List Char} (h : rest = [] ∨ tagOpen <+: rest) : Spelling rest [] rest
  | backslash {input content rest : List Char} (h : Spelling input content rest) :
      Spelling ('\\' :: '\\' :: input) ('\\' :: content) rest
  | brace {input content rest : List Char} (h : Spelling input content rest) :
      Spelling ('\\' :: '{' :: input) ('{' :: content) rest
  | plain {c : Char} {input content rest : List Char} (hc : c ≠ '\\')
      (hopen : ¬ tagOpen <+: c :: input) (h : Spelling input content rest) :
      Spelling (c :: input) (c :: content) rest

/-! ## Elements -/

/-- The escapes of a string literal: the character after the backslash, and the
character that both stand for. -/
def Quoted.escapes : List (Char × Char) :=
  [('"', '"'), ('\\', '\\'), ('n', '\n'), ('r', '\r'), ('t', '\t')]

/-- The front of the input is the inside of a string literal and its closing quote.
The two characters that close a tag do not stand in it. -/
inductive Quoted.Spelling : List Char → List Char → List Char → Prop where
  | close {rest : List Char} : Spelling ('"' :: rest) [] rest
  | escape {d c : Char} {input value rest : List Char} (hd : (d, c) ∈ Quoted.escapes)
      (h : Spelling input value rest) : Spelling ('\\' :: d :: input) (c :: value) rest
  | plain {c : Char} {input value rest : List Char} (hquote : c ≠ '"') (hslash : c ≠ '\\')
      (hclose : ¬ tagClose <+: c :: input) (h : Spelling input value rest) :
      Spelling (c :: input) (c :: value) rest

namespace Numeral

/-- The number has digits before the point, and after it if there is a point. -/
structure IsWritten (n : Numeral) : Prop where
  whole_ne_nil : n.whole.toList ≠ []
  isDigit_of_mem_whole : ∀ c ∈ n.whole.toList, c.isDigit = true
  fraction_ne_nil : ∀ f ∈ n.fraction, f.toList ≠ []
  isDigit_of_mem_fraction : ∀ f ∈ n.fraction, ∀ c ∈ f.toList, c.isDigit = true

/-- The element that a number stands for: an integer if there is no point and
sixty-four bits hold the value, and the nearest double otherwise, if that is finite. -/
inductive Denotes (n : Numeral) : Element → Prop where
  | integer {value : Int64} (hpoint : n.fraction = none) (h : n.signed = value.toInt) :
      Denotes n (.integer value)
  | double {value : Binary64}
      (hpoint : n.fraction = none → ∀ v : Int64, n.signed ≠ v.toInt)
      (h : Binary64.ofRatio? n.negative n.digits n.scale = some value) :
      Denotes n (.double value)

end Numeral

/-- White space, possibly none, and then the rest. -/
def Blanks (input rest : List Char) : Prop :=
  ∃ u, (∀ c ∈ u, Character.isWhiteSpace c = true) ∧ input = u ++ rest

namespace Element

/-- The front of the input is one element. -/
inductive Spelling : List Char → Element → List Char → Prop where
  | var {w rest : List Char} (hw : isIdentifier w = true)
      (hrest : Stops Character.isWordChar rest) :
      Spelling (w ++ rest) (.var (String.ofList w)) rest
  | function {w rest : List Char} (hw : isIdentifier w = true)
      (hrest : Stops Character.isWordChar rest) :
      Spelling ('@' :: (w ++ rest)) (.function (String.ofList ('@' :: w))) rest
  | number {n : Numeral} {element : Element} {rest : List Char} (hn : n.IsWritten)
      (hword : Stops Character.isWordChar rest) (hpoint : Stops (· == '.') rest)
      (h : n.Denotes element) : Spelling (n.text.toList ++ rest) element rest
  | string {input value rest : List Char} (h : Quoted.Spelling input value rest) :
      Spelling ('"' :: input) (.string (String.ofList value)) rest
  | operator {c : Char} {rest : List Char} (hc : c ∈ operatorSymbols)
      (hminus : c = '-' → Stops Char.isDigit rest) : Spelling (c :: rest) (.operator c) rest

/-- The front of the input is a sequence of elements and the delimiter that closes
the tag, with any white space before each of them. -/
inductive Listing : List Char → List Element → List Char → Prop where
  | close {input rest : List Char} (h : Blanks input (tagClose ++ rest)) :
      Listing input [] rest
  | cons {input start after rest : List Char} {element : Element} {elements : List Element}
      (hblanks : Blanks input start) (helement : Spelling start element after)
      (h : Listing after elements rest) : Listing input (element :: elements) rest

end Element

/-! ## Items -/

/-- The parts of which a document consists when read from left to right. -/
inductive Item where
  | text (content : String)
  | echo (elements : List Element)
  /-- A `FOR` tag. -/
  | openLoop (header : LoopHeader)
  /-- An `END` tag. -/
  | closeLoop
  deriving DecidableEq

/-- A loop runs a variable over operands. -/
structure LoopHeader.IsLoop (header : LoopHeader) : Prop where
  isVariable : header.loopVariable.isVariable = true
  isLoopOperand_start : header.start.isLoopOperand = true
  isLoopOperand_stop : header.stop.isLoopOperand = true
  isLoopOperand_step : ∀ step ∈ header.step, step.isLoopOperand = true

/-- The front of the input is white space and a keyword, which is a whole word in any
mixture of upper and lower case. -/
def KeywordSpelling (keyword input rest : List Char) : Prop :=
  ∃ w, Blanks input (w ++ rest) ∧ w.map Char.toUpper = keyword ∧ Stops Character.isWordChar rest

/-- The front of the input is one item. -/
inductive Item.Spelling : List Char → Item → List Char → Prop where
  | text {input content rest : List Char} (h : FreeText.Spelling input content rest)
      (hne : content ≠ []) : Spelling input (.text (String.ofList content)) rest
  | echo {input start rest : List Char} {elements : List Element}
      (hsign : Blanks input ('=' :: start)) (h : Element.Listing start elements rest) :
      Spelling (tagOpen ++ input) (.echo elements) rest
  | openLoop {input start rest : List Char} {header : LoopHeader}
      (hword : KeywordSpelling ['F', 'O', 'R'] input start)
      (h : Element.Listing start header.elements rest) (hheader : header.IsLoop) :
      Spelling (tagOpen ++ input) (.openLoop header) rest
  | closeLoop {input start rest : List Char}
      (hword : KeywordSpelling ['E', 'N', 'D'] input start)
      (h : Element.Listing start [] rest) : Spelling (tagOpen ++ input) .closeLoop rest

/-! ## Bodies -/

/-- The front of the input is the body of a loop or of the document. -/
inductive Body : List Char → List Node → List Char → Prop where
  | nil {rest : List Char} : Body rest [] rest
  | text {input after rest : List Char} {content : String} {nodes : List Node}
      (h : Item.Spelling input (.text content) after) (hnodes : Body after nodes rest) :
      Body input (.text content :: nodes) rest
  | echo {input after rest : List Char} {elements : List Element} {nodes : List Node}
      (h : Item.Spelling input (.echo elements) after) (hnodes : Body after nodes rest) :
      Body input (.echo elements :: nodes) rest
  | forLoop {input inner outer after rest : List Char} {header : LoopHeader}
      {children nodes : List Node} (hopen : Item.Spelling input (.openLoop header) inner)
      (hchildren : Body inner children outer) (hclose : Item.Spelling outer .closeLoop after)
      (hnodes : Body after nodes rest) : Body input (.forLoop header children :: nodes) rest

/-- The whole document is a body, and the tree holds its nodes. -/
def Derives (document : String) (tree : Node) : Prop :=
  ∃ children, Body document.toList children [] ∧ tree = .document children

namespace Node

mutual

/-- The greatest number of loops on one path of a tree. -/
def nesting : Node → Nat
  | document children => nestingBelow children
  | forLoop _ children => nestingBelow children + 1
  | text _ => 0
  | echo _ => 0

/-- The greatest number of loops on one path of the given trees. -/
def nestingBelow : List Node → Nat
  | [] => 0
  | node :: nodes => max (nesting node) (nestingBelow nodes)

end

end Node
end TagTemplate
