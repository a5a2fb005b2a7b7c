/-!
# Options of reading

The grammar of documents is fixed.  What may be chosen is how many loops may be
open at the same time, which bounds the depth of the trees that are read.
-/

namespace TagTemplate

/-- How a document is read. -/
structure ParseOptions where
  /-- The greatest number of loops that may be open at the same time. -/
  maxDepth : Nat := 128
  deriving DecidableEq, Repr

namespace ParseOptions

/-- The largest limit of sixty-four bits, which no document in memory reaches. -/
def largestLimit : Nat := 0xFFFFFFFFFFFFFFFF

/-- Options that put no bound on the depth. -/
def unbounded : ParseOptions := ⟨largestLimit⟩

end ParseOptions
end TagTemplate
