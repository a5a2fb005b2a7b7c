/-!
# The delimiters of a tag

Everything between the two delimiters is a tag; everything else is free text.
-/

namespace TagTemplate

/-- The two characters that open a tag. -/
def tagOpen : List Char := ['{', '$']

/-- The two characters that close a tag. -/
def tagClose : List Char := ['$', '}']

end TagTemplate
