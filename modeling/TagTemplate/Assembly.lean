import TagTemplate.Fault
import TagTemplate.Node
import TagTemplate.Token

/-!
# Assembling a tree from tokens

An assembly is a document tree of which the tokens up to some point are known.  It
holds the nodes of the innermost open loop, the loops around it with the nodes in
front of each, and the tag that is being read, if any.  `Assembly.accept` adds one
token.  Nothing is ever looked at again: a node is complete when it is added, and a
loop becomes a node at its `END`.

## Errors

A tag is judged at its closing delimiter, so the error of an element comes before
the error of a tag.  In a `FOR` tag the loop variable is judged first, then its
bounds and step in order, then their number, and the limit on open loops at last.
-/

namespace TagTemplate

/-- A loop whose `END` is still to come: its header, the position of its `FOR` tag,
and the nodes in front of it in the body that it belongs to, the last one first. -/
structure OpenLoop where
  header : LoopHeader
  position : Position
  before : List Node

/-- Where the next token stands. -/
inductive Place where
  /-- Outside of all tags. -/
  | body
  /-- Right after the opening delimiter of a tag, which is at `opening`. -/
  | tagStart (opening : Position)
  /-- In a tag, after its keyword and some elements, the last one first. -/
  | tag (opening : Position) (keyword : Keyword) (elements : List (Located Element))

/-- A document tree under construction. -/
structure Assembly where
  place : Place
  /-- The nodes of the innermost open loop so far, the last one first. -/
  nodes : List Node
  /-- The loops that are open, the innermost one first. -/
  loops : List OpenLoop

/-- The result of a token that is not an error. -/
inductive Progress where
  | unfinished (assembly : Assembly)
  | finished (document : Node)

/-- The header that the elements of a `FOR` tag make. -/
def LoopHeader.ofElements (opening : Position) :
    List (Located Element) → Except Error LoopHeader
  | [] => .error (Fault.emptyForTag.toError opening)
  | first :: operands =>
      if first.value.isVariable then
        match operands.find? (fun operand => !operand.value.isLoopOperand) with
        | some operand =>
            .error ((Fault.loopOperand operand.value.text).toError operand.position)
        | none =>
            match operands.map Located.value with
            | [start, stop] => .ok ⟨first.value, start, stop, none⟩
            | [start, stop, step] => .ok ⟨first.value, start, stop, some step⟩
            | _ => .error ((Fault.loopLength (operands.length + 1)).toError opening)
      else .error ((Fault.loopVariable first.value.text).toError first.position)

namespace Assembly

/-- The assembly of which no token is known. -/
def empty : Assembly := ⟨.body, [], []⟩

/-- Adds a node at the end of the innermost open loop. -/
def addNode (a : Assembly) (node : Node) : Assembly := ⟨.body, node :: a.nodes, a.loops⟩

/-- Opens a loop, if the limit allows one more. -/
def openLoop (limit : Nat) (a : Assembly) (opening : Position) (header : LoopHeader) :
    Except Error Assembly :=
  if limit ≤ a.loops.length then .error ((Fault.nestingTooDeep limit).toError opening)
  else .ok ⟨.body, [], ⟨header, opening, a.nodes⟩ :: a.loops⟩

/-- Closes the innermost loop, which becomes a node of the body around it. -/
def closeLoop (a : Assembly) (opening : Position) : Except Error Assembly :=
  match a.loops with
  | [] => .error (Fault.unmatchedEnd.toError opening)
  | loop :: loops =>
      .ok ⟨.body, .forLoop loop.header a.nodes.reverse :: loop.before, loops⟩

/-- Adds a whole tag, given by its keyword and its elements. -/
def addTag (limit : Nat) (a : Assembly) (opening : Position) (keyword : Keyword)
    (elements : List (Located Element)) : Except Error Assembly :=
  match keyword with
  | .echo => .ok (a.addNode (.echo (elements.map Located.value)))
  | .openLoop =>
      match LoopHeader.ofElements opening elements with
      | .error error => .error error
      | .ok header => a.openLoop limit opening header
  | .closeLoop =>
      match elements with
      | element :: _ =>
          .error ((Fault.endElement element.value.text).toError element.position)
      | [] => a.closeLoop opening

/-- The document that is complete where the text ends, unless a loop is open. -/
def finish (a : Assembly) : Except Error Node :=
  match a.loops with
  | [] => .ok (.document a.nodes.reverse)
  | loop :: loops => .error ((Fault.unclosedLoops (loops.length + 1)).toError loop.position)

/-- The error of a token that the reading of tags never puts at this place.  The step has to
give something for such a token too, but no reading of a document comes to it, so its wording
is left short. -/
def misplaced (token : Located Token) (place : String) : Except Error Progress :=
  .error ((Fault.misplacedToken token.value.description place).toError token.position)

/-- Adds a token. -/
def accept (limit : Nat) (a : Assembly) (token : Located Token) : Except Error Progress :=
  match a.place with
  | .body =>
      match token.value with
      | .text content => .ok (.unfinished (a.addNode (.text content)))
      | .tagOpen => .ok (.unfinished { a with place := .tagStart token.position })
      | .endOfInput => a.finish.map .finished
      | _ => misplaced token "outside of a tag"
  | .tagStart opening =>
      match token.value with
      | .keyword keyword => .ok (.unfinished { a with place := .tag opening keyword [] })
      | .tagClose => .error (Fault.emptyTag.toError opening)
      | .endOfInput => .error (Fault.unterminatedTag.toError opening)
      | .element element =>
          .error ((Fault.missingKeyword element.text).toError token.position)
      | _ => misplaced token "at the start of a tag"
  | .tag opening keyword elements =>
      match token.value with
      | .element element =>
          let elements := ⟨element, token.position⟩ :: elements
          .ok (.unfinished { a with place := .tag opening keyword elements })
      | .tagClose => (a.addTag limit opening keyword elements.reverse).map .unfinished
      | .endOfInput => .error (Fault.unterminatedTag.toError opening)
      | _ => misplaced token "inside a tag"

/-- The end of the document leaves nothing unfinished. -/
theorem ne_endOfInput_of_unfinished {limit : Nat} {a b : Assembly} {token : Located Token}
    (h : a.accept limit token = .ok (.unfinished b)) : token.value ≠ .endOfInput := by
  intro ht
  unfold accept at h
  cases hp : a.place with
  | body =>
    rw [hp, ht] at h
    cases hf : a.finish <;> simp [hf, Except.map] at h
  | tagStart opening => simp [hp, ht] at h
  | tag opening keyword elements => simp [hp, ht] at h

end Assembly
end TagTemplate
