import TagTemplate.Canonical
import TagTemplate.Error
import TagTemplate.Utf8

/-!
# Writing the canonical text

A writer is offered bytes and answers how many of the first ones it accepts, or
that it fails.  `Writer.writeAll` offers what is left over again, until everything
is accepted, the writer fails, or it accepts nothing.  What the writer does with its
own state from one offer to the next is up to the writer.
-/

namespace TagTemplate

/-- The answer of a writer to an offer of bytes. -/
inductive Answer where
  /-- So many of the first bytes are accepted; a count above the number of bytes
  offered means all of them. -/
  | accepted (count : Nat)
  /-- Nothing is accepted, for a reason. -/
  | failed (reason : String)
  deriving DecidableEq, Repr

/-- A writer with states of type `σ`. -/
structure Writer (σ : Type) where
  offer : σ → List UInt8 → Answer × σ

/-- What has become of bytes that were to be written. -/
structure Delivery (σ : Type) where
  /-- All bytes that the writer accepted, in order. -/
  written : Array UInt8
  state : σ
  /-- Why not everything was accepted, if so. -/
  failure : Option Error

namespace Writer

variable {σ : Type}

/-- The reason given when a writer accepts nothing of what is left. -/
def acceptedNothing : String := "failed to write whole buffer"

/-- Offers bytes until all are accepted, after `written` has been accepted. -/
def writeFrom (writer : Writer σ) (written : Array UInt8) (state : σ) :
    List UInt8 → Delivery σ
  | [] => ⟨written, state, none⟩
  | byte :: bytes =>
      match writer.offer state (byte :: bytes) with
      | (.failed reason, state) => ⟨written, state, some (.io reason)⟩
      | (.accepted 0, state) => ⟨written, state, some (.io acceptedNothing)⟩
      | (.accepted (count + 1), state) =>
          writeFrom writer (written.push byte ++ bytes.take count) state (bytes.drop count)
termination_by bytes => bytes.length
decreasing_by
  simp only [List.length_drop, List.length_cons]
  omega

/-- Offers bytes until all are accepted. -/
def writeAll (writer : Writer σ) (state : σ) (bytes : List UInt8) : Delivery σ :=
  writer.writeFrom #[] state bytes

/-- Writes the canonical text of a tree. -/
def writeNode (writer : Writer σ) (state : σ) (node : Node) : Delivery σ :=
  writer.writeAll state (Utf8.encode node.canonicalText)

/-- The writer that accepts at most `step` bytes of an offer, and as many in all as
its state has room for.  When it can accept none it fails for the reason given, or
accepts nothing. -/
def limited (step : Nat) (reason : Option String) : Writer Nat where
  offer room bytes :=
    let count := ((bytes.take step).take room).length
    if count = 0 then (reason.elim (.accepted 0) .failed, room)
    else (.accepted count, room - count)

end Writer
end TagTemplate
