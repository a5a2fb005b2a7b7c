import TagTemplate.Json.Basic
import TagTemplate.Node

/-!
# The JSON form of a tree

Each node and each element is an object with one field, whose name is its kind.
Strings stand in it with their escapes resolved.  Doubles that are not finite have
no form of their own and become `null`.
-/

namespace TagTemplate

/-- The JSON form of an element. -/
def Element.toJson : Element → Json
  | var name => .object [("Variable", .string name)]
  | function name => .object [("Function", .string name)]
  | integer value => .object [("ConstantInteger", .integer value.toInt)]
  | double value => .object [("ConstantDouble", .double value)]
  | string value => .object [("StringLiteral", .string value)]
  | operator symbol => .object [("Operator", .string (String.singleton symbol))]

/-- The fields of a loop that its header gives. -/
def LoopHeader.jsonFields (header : LoopHeader) : List (String × Json) :=
  [("variable", header.loopVariable.toJson),
   ("start", header.start.toJson),
   ("end", header.stop.toJson),
   ("step", header.step.elim .null Element.toJson)]

namespace Node

mutual

/-- The JSON form of a tree. -/
def toJson : Node → Json
  | document children =>
      .object [("Document", .object [("children", .array (toJsons children))])]
  | text content => .object [("Text", .object [("text", .string content)])]
  | forLoop header children =>
      .object [("ForLoop",
        .object (header.jsonFields ++ [("children", .array (toJsons children))]))]
  | echo elements =>
      .object [("Echo", .object [("elements", .array (elements.map Element.toJson))])]

/-- The JSON forms of trees. -/
def toJsons : List Node → List Json
  | [] => []
  | node :: nodes => toJson node :: toJsons nodes

end

end Node
end TagTemplate
