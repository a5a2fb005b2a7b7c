import TagTemplate.Assembly
import TagTemplate.Lexer
import TagTemplate.Proofs.Errors.Readers

/-!
# Errors that blame no place

The error of a misplaced token names a token and the place where the reading of tags has no use
for it.  It is worded like no other fault (`Fault.exists_eq_misplacedToken`), so an error of a
reader can be told from it by its text alone.  No reader returns it: neither that of a text, of
a string or of an element, nor a call for a token, nor a tag that is judged as a whole.
-/

namespace TagTemplate

/-- The error says that a token is misplaced. -/
def Error.IsMisplaced (error : Error) : Prop :=
  ∃ (token : Token) (place : String) (position : Position),
    error = (Fault.misplacedToken token.description place).toError position

/-- No other fault is worded like a misplaced token. -/
theorem Fault.exists_eq_misplacedToken {fault : Fault} {position : Position}
    (h : (fault.toError position).IsMisplaced) :
    ∃ token place, fault = misplacedToken token place := by
  obtain ⟨token, place, other, h⟩ := h
  cases fault with
  | misplacedToken token place => exact ⟨token, place, rfl⟩
  | strayDollar | strayCharacter | unterminatedTag | missingKeyword | loopOperand | loopLength |
      endElement =>
    -- the wordings differ within their first twelve characters
    simp only [toError, Error.invalid.injEq, true_and] at h
    have hfront := congrArg (List.take 12 ·.toList) h.2
    cases token <;> simp [Token.description, toString] at hfront
  | _ => simp [toError] at h

theorem Fault.not_isMisplaced {α : Type} {fault : Fault} {position : Position} {error : Error}
    (h : (.error (fault.toError position) : Except Error α) = .error error)
    (hfault : ∀ token place, fault ≠ misplacedToken token place) : ¬ error.IsMisplaced := by
  obtain rfl := Except.error.inj h
  intro hmisplaced
  obtain ⟨token, place, heq⟩ := exists_eq_misplacedToken hmisplaced
  exact hfault token place heq

/-! ## What the lexer returns -/

theorem FreeText.not_isMisplaced_of_scanFrom {taken : String} {p : Position} {cs : List Char}
    {error : Error} (h : (scanFrom taken p cs).1 = .error error) : ¬ error.IsMisplaced := by
  fun_induction scanFrom taken p cs with
  | case1 => exact absurd h (by simp)
  | case2 => exact Fault.not_isMisplaced h (by simp)
  | case3 _ _ _ _ _ ih => exact ih h
  | case4 => exact Fault.not_isMisplaced h (by simp)
  | case5 => exact absurd h (by simp)
  | case6 _ _ _ _ _ _ ih => exact ih h

theorem Quoted.not_isMisplaced_of_scanFrom {opening p : Position} {taken : String}
    {cs : List Char} {error : Error} (h : (scanFrom opening taken p cs).1 = .error error) :
    ¬ error.IsMisplaced := by
  fun_induction scanFrom opening taken p cs with
  | case3 => exact absurd h (by simp)
  | case5 _ _ _ _ _ _ _ _ ih => exact ih h
  | case7 _ _ _ _ _ _ _ ih => exact ih h
  | _ => exact Fault.not_isMisplaced h (by simp)

theorem Element.not_isMisplaced_of_read {c : Cursor} {ch : Char} {error : Error}
    (h : (read ch c).1 = .error error) : ¬ error.IsMisplaced := by
  unfold read at h
  split at h
  · exact Quoted.not_isMisplaced_of_scanFrom (map_eq_error_iff.mp h)
  split at h
  · simp only [readFunction] at h
    split at h
    · exact absurd h (by simp)
    · exact Fault.not_isMisplaced h (by simp)
  split at h
  · simp only [readVariable] at h
    split at h
    · exact absurd h (by simp)
    · exact Fault.not_isMisplaced h (by simp)
  split at h
  · simp only [Numeral.read] at h
    rcases hresolve : (Numeral.readParts c).1.resolve (Numeral.readParts c).2.peek? with
      fault | element
    · rw [hresolve] at h
      obtain rfl : fault.toError c.position = error := Except.error.inj h
      obtain ⟨message, hmessage⟩ := Numeral.exists_message_of_resolve hresolve c.position
      rintro ⟨token, place, position, hmisplaced⟩
      rw [hmessage] at hmisplaced
      exact absurd (Error.invalid.inj hmisplaced).1 (by simp)
    · rw [hresolve] at h
      exact absurd h (by simp [Except.mapError])
  split at h
  · exact absurd h (by simp)
  split at h <;> exact Fault.not_isMisplaced h (by simp)

namespace Lexer

theorem not_isMisplaced_of_tagToken {c : Cursor} {error : Error}
    (h : (tagToken c).1 = .error error) : ¬ error.IsMisplaced := by
  unfold tagToken at h
  split at h
  · exact absurd h (by simp)
  · split at h
    · exact absurd h (by simp)
    · exact Element.not_isMisplaced_of_read (map_eq_error_iff.mp h)

/-- No call for a token says that a token is misplaced. -/
theorem not_isMisplaced_of_next {lexer : Lexer} {error : Error}
    (h : lexer.next.1 = .error error) : ¬ error.IsMisplaced := by
  unfold next at h
  split at h
  · unfold nextInText at h
    split at h
    · exact absurd h (by simp)
    · split at h
      · exact absurd h (by simp)
      · exact FreeText.not_isMisplaced_of_scanFrom (map_eq_error_iff.mp h)
  · unfold startToken at h
    split at h
    · exact absurd h (by simp)
    · split at h
      · exact absurd h (by simp)
      · exact not_isMisplaced_of_tagToken h
  · exact not_isMisplaced_of_tagToken h

end Lexer

/-! ## What a tag is refused for -/

theorem LoopHeader.not_isMisplaced_of_ofElements {opening : Position}
    {elements : List (Located Element)} {error : Error}
    (h : ofElements opening elements = .error error) : ¬ error.IsMisplaced := by
  unfold ofElements at h
  split at h
  · exact Fault.not_isMisplaced h (by simp)
  split at h
  · split at h
    · exact Fault.not_isMisplaced h (by simp)
    · split at h
      · exact absurd h (by simp)
      · exact absurd h (by simp)
      · exact Fault.not_isMisplaced h (by simp)
  · exact Fault.not_isMisplaced h (by simp)

namespace Assembly

theorem not_isMisplaced_of_addTag {limit : Nat} {a : Assembly} {opening : Position}
    {keyword : Keyword} {elements : List (Located Element)} {error : Error}
    (h : a.addTag limit opening keyword elements = .error error) : ¬ error.IsMisplaced := by
  cases keyword with
  | echo => exact absurd h (by simp [addTag])
  | openLoop =>
    simp only [addTag] at h
    split at h
    · rename_i cause hheader
      obtain rfl := Except.error.inj h
      exact LoopHeader.not_isMisplaced_of_ofElements hheader
    · unfold openLoop at h
      split at h
      · exact Fault.not_isMisplaced h (by simp)
      · exact absurd h (by simp)
  | closeLoop =>
    simp only [addTag] at h
    split at h
    · exact Fault.not_isMisplaced h (by simp)
    · unfold closeLoop at h
      split at h
      · exact Fault.not_isMisplaced h (by simp)
      · exact absurd h (by simp)

end Assembly
end TagTemplate
