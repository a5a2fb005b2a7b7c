import TagTemplate.Element.Basic

/-!
# Document trees

A document is a tree.  Documents and loops have children; texts and echo tags are
leaves.  What is read from a document text has the document node at its root and
nowhere else, but a tree may be built in any shape, and every operation on trees
is defined on all of them.
-/

namespace TagTemplate

/-- What a `FOR` tag says: the loop variable, its first and last value, and the
step from one to the next, which may be left out. -/
structure LoopHeader where
  loopVariable : Element
  start : Element
  stop : Element
  step : Option Element
  deriving DecidableEq

/-- A node of a document tree. -/
inductive Node where
  | document (children : List Node)
  /-- Literal text, with its escapes resolved. -/
  | text (content : String)
  | forLoop (header : LoopHeader) (children : List Node)
  | echo (elements : List Element)

namespace LoopHeader

/-- The elements of a `FOR` tag, in the order in which they are written. -/
def elements (header : LoopHeader) : List Element :=
  header.loopVariable :: header.start :: header.stop :: header.step.toList

/-- Equality of steps, where doubles are compared by value. -/
def sameStep : Option Element → Option Element → Bool
  | none, none => true
  | some a, some b => a.sameValue b
  | _, _ => false

/-- Equality of headers, where doubles are compared by value. -/
def sameValue (a b : LoopHeader) : Bool :=
  a.loopVariable.sameValue b.loopVariable && a.start.sameValue b.start &&
    a.stop.sameValue b.stop && sameStep a.step b.step

end LoopHeader

namespace Node

def isDocument : Node → Bool
  | document _ => true
  | _ => false

def isText : Node → Bool
  | text _ => true
  | _ => false

def isForLoop : Node → Bool
  | forLoop _ _ => true
  | _ => false

def isEcho : Node → Bool
  | echo _ => true
  | _ => false

/-- The children of a node, in document order. -/
def children : Node → List Node
  | document children => children
  | forLoop _ children => children
  | _ => []

/-- The child at an index, counted from zero. -/
def child? (node : Node) (index : Nat) : Option Node := node.children[index]?

/-- The node that a path of child indices leads to. -/
def descendant? (node : Node) : List Nat → Option Node
  | [] => some node
  | index :: path => (node.child? index).bind (descendant? · path)

/-- The content of a text. -/
def text? : Node → Option String
  | text content => some content
  | _ => none

/-- The elements of an echo tag. -/
def elements? : Node → Option (List Element)
  | echo elements => some elements
  | _ => none

/-- The children of a loop. -/
def loopChildren? : Node → Option (List Node)
  | forLoop _ children => some children
  | _ => none

mutual

/-- The height of the tree below a node, zero for a node without children. -/
def depth : Node → Nat
  | document children => depthBelow children
  | forLoop _ children => depthBelow children
  | text _ => 0
  | echo _ => 0

/-- The height of the tree below a node with the given children. -/
def depthBelow : List Node → Nat
  | [] => 0
  | node :: nodes => max (depth node + 1) (depthBelow nodes)

end

/-- Equality of lists of elements, where doubles are compared by value. -/
def sameElements : List Element → List Element → Bool
  | [], [] => true
  | a :: as, b :: bs => a.sameValue b && sameElements as bs
  | _, _ => false

mutual

/-- Equality of trees, where doubles are compared by value: the two zeros are
equal, and a tree that holds something that is not a number is unequal to itself. -/
def sameValue : Node → Node → Bool
  | document as, document bs => sameValues as bs
  | text a, text b => a == b
  | forLoop a as, forLoop b bs => a.sameValue b && sameValues as bs
  | echo as, echo bs => sameElements as bs
  | _, _ => false

/-- Equality of lists of trees, where doubles are compared by value. -/
def sameValues : List Node → List Node → Bool
  | [], [] => true
  | a :: as, b :: bs => sameValue a b && sameValues as bs
  | _, _ => false

end

end Node
end TagTemplate
