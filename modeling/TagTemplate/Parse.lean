import TagTemplate.Assembly
import TagTemplate.Lexer
import TagTemplate.Options

/-!
# Reading documents

A document is read token by token.  Each token is added to the tree under
construction, until the end of the document completes the tree or an error ends
the reading.  The error that is returned is the first one in the document.

Reading ends because every step but the last one reads a character:
`Assembly.rest_length_lt_of_step`.
-/

namespace TagTemplate
namespace Assembly

/-- Reads one token and adds it. -/
def step (limit : Nat) (lexer : Lexer) (a : Assembly) : Except Error (Progress × Lexer) :=
  match lexer.next with
  | (.error error, _) => .error error
  | (.ok token, rest) => (a.accept limit token).map (·, rest)

/-- A step that leaves the tree unfinished reads at least one character. -/
theorem rest_length_lt_of_step {limit : Nat} {lexer rest : Lexer} {a b : Assembly}
    (h : a.step limit lexer = .ok (.unfinished b, rest)) :
    rest.cursor.rest.length < lexer.cursor.rest.length := by
  unfold step at h
  split at h
  · simp at h
  · rename_i token rest' hnext
    cases haccept : a.accept limit token with
    | error error => simp [haccept, Except.map] at h
    | ok progress =>
      simp only [haccept, Except.map, Except.ok.injEq, Prod.mk.injEq] at h
      obtain ⟨rfl, rfl⟩ := h
      exact Lexer.next_rest_length_lt hnext (ne_endOfInput_of_unfinished haccept)

/-- Reads tokens and adds them until the tree is finished or a token is refused. -/
def run (limit : Nat) (lexer : Lexer) (a : Assembly) : Except Error Node :=
  match h : a.step limit lexer with
  | .error error => .error error
  | .ok (.finished document, _) => .ok document
  | .ok (.unfinished b, rest) =>
      have := rest_length_lt_of_step h
      b.run limit rest
termination_by lexer.cursor.rest.length

end Assembly

/-- Reads a document text into a tree. -/
def parse (text : String) (options : ParseOptions := {}) : Except Error Node :=
  Assembly.empty.run options.maxDepth (.ofString text)

end TagTemplate
