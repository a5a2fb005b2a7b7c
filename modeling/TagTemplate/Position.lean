/-!
# Positions in a document

A position names a character of a document by line and column, both counted from
one.  A column counts characters, whatever their width in bytes, and only a line
feed starts a new line.
-/

namespace TagTemplate

/-- A line and a column, both counted from one. -/
structure Position where
  line : Nat
  column : Nat
  deriving DecidableEq, Repr

namespace Position

/-- The position of the first character. -/
def start : Position := ⟨1, 1⟩

/-- The position of the character after `c`, when `c` stands at `p`. -/
def advance (p : Position) (c : Char) : Position :=
  if c = '\n' then ⟨p.line + 1, 1⟩ else ⟨p.line, p.column + 1⟩

/-- The position after a stretch of text that starts at `p`. -/
def after (p : Position) (cs : List Char) : Position := cs.foldl advance p

@[simp] theorem after_nil (p : Position) : p.after [] = p := rfl

@[simp] theorem after_cons (p : Position) (c : Char) (cs : List Char) :
    p.after (c :: cs) = (p.advance c).after cs := rfl

@[simp] theorem after_append (p : Position) (as bs : List Char) :
    p.after (as ++ bs) = (p.after as).after bs := by
  simp [after]

end Position

/-- A value together with the position where it starts in the document. -/
structure Located (α : Type) where
  value : α
  position : Position
  deriving DecidableEq, Repr

end TagTemplate
