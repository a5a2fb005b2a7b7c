import TagTemplate.FreeText
import TagTemplate.Node

/-!
# Canonical text

The canonical text of a tree has every backslash and brace of its free text
escaped, single spaces between the parts of a tag, and keywords in capitals.
There are no tags for document nodes: their children follow one another.

`writeOnto` appends the text of a tree to what is written already, so that trees
may be written one after another, and a long document is not copied for each of
its parts.
-/

namespace TagTemplate

/-- The text of elements inside a tag, with single spaces between them. -/
def Element.listText (elements : List Element) : String :=
  " ".intercalate (elements.map Element.text)

/-- The `FOR` tag of a loop. -/
def LoopHeader.tagText (header : LoopHeader) : String :=
  "\x7b$ FOR " ++ Element.listText header.elements ++ " $\x7d"

/-- The `END` tag of a loop. -/
def endTagText : String := "\x7b$END$\x7d"

/-- The echo tag of elements. -/
def echoTagText (elements : List Element) : String :=
  "\x7b$= " ++ Element.listText elements ++ " $\x7d"

namespace Node

mutual

/-- Appends the canonical text of a tree to `out`. -/
def writeOnto (out : String) : Node → String
  | document children => writeAllOnto out children
  | text content => out ++ String.ofList (FreeText.encode content.toList)
  | forLoop header children => writeAllOnto (out ++ header.tagText) children ++ endTagText
  | echo elements => out ++ echoTagText elements

/-- Appends the canonical texts of trees, one after another, to `out`. -/
def writeAllOnto (out : String) : List Node → String
  | [] => out
  | node :: nodes => writeAllOnto (writeOnto out node) nodes

end

/-- The canonical text of a tree. -/
def canonicalText (node : Node) : String := writeOnto "" node

/-- The canonical texts of trees, one after another. -/
def canonicalTexts (nodes : List Node) : String := writeAllOnto "" nodes

mutual

theorem writeOnto_eq_append (out : String) (node : Node) :
    writeOnto out node = out ++ writeOnto "" node := by
  match node with
  | document children => simpa only [writeOnto] using writeAllOnto_eq_append out children
  | text content => simp [writeOnto]
  | forLoop header children =>
    simp only [writeOnto]
    rw [writeAllOnto_eq_append, writeAllOnto_eq_append ("" ++ header.tagText)]
    simp [String.append_assoc]
  | echo elements => simp [writeOnto]

/-- Writing after a text is writing and putting the text in front. -/
theorem writeAllOnto_eq_append (out : String) (nodes : List Node) :
    writeAllOnto out nodes = out ++ writeAllOnto "" nodes := by
  match nodes with
  | [] => simp [writeAllOnto]
  | node :: nodes =>
    simp only [writeAllOnto]
    rw [writeAllOnto_eq_append, writeAllOnto_eq_append (writeOnto "" node),
      writeOnto_eq_append out node, String.append_assoc]

end

end Node
end TagTemplate
