import TagTemplate.Lexer
import TagTemplate.Proofs.Reading.Element

/-!
# The tokens of a tag

In a tag the lexer passes over white space and reads what stands there.  Where that is not
the closing delimiter, reading is left to the reader of elements (`Lexer.tagToken_of_rest`),
and at the start of a tag as well, unless a keyword may stand there (`Lexer.next_of_rest`).

So an element is returned exactly where one is spelled: `Lexer.next_of_spelling`,
`Lexer.spelling_of_next`.
-/

namespace TagTemplate
namespace Lexer

variable {c d : Cursor} {mode : Mode} {ch : Char} {tail rest : List Char}
  {element : TagTemplate.Element}

/-- Where an element starts, the token is what the reader of elements returns. -/
theorem tagToken_of_rest (hc : c.rest = ch :: tail) (hdollar : ch ≠ '$') :
    tagToken c = ((Element.read ch c).1.map (⟨.element ·, c.position⟩),
      ⟨(Element.read ch c).2, .tag⟩) := by
  have hclose : c.eat? TagTemplate.tagClose = none :=
    Cursor.eat?_eq_none_of_head_ne hc hdollar.symm
  simp only [tagToken, hclose, Cursor.peek?_of_rest hc]

/-- Without white space in front, a token of a tag is read at the cursor.  At the start of a
tag this takes what can be no keyword. -/
theorem next_of_rest (hc : c.rest = ch :: tail) (hwhite : Character.isWhiteSpace ch = false)
    (hmode : mode = .tag ∨ (mode = .tagStart ∧ ch ≠ '=' ∧ Character.isAlphabetic ch = false)) :
    next ⟨c, mode⟩ = tagToken c := by
  have hskip : c.skipWhiteSpace = c := by
    obtain ⟨cs, position⟩ := c
    obtain rfl : cs = ch :: tail := hc
    simp [Cursor.skipWhiteSpace, Cursor.skipWhileFrom, hwhite]
  rcases hmode with rfl | ⟨rfl, hsign, halpha⟩
  · simp only [next, hskip]
  · have hecho : c.eat? ['='] = none := Cursor.eat?_eq_none_of_head_ne hc hsign.symm
    simp [next, hskip, startToken, hecho, Cursor.peek?_of_rest hc, halpha]

/-- An element that is spelled at the cursor is the next token of the tag, and what is left
is what follows it. -/
theorem next_of_spelling (h : Element.Spelling c.rest element rest) :
    ∃ u d, next ⟨c, .tag⟩ = (.ok ⟨.element element, c.position⟩, ⟨d, .tag⟩) ∧
      Cursor.Reads c u d ∧ d.rest = rest := by
  obtain ⟨ch, tail, hc, hwhite, hdollar⟩ := h.exists_cons
  obtain ⟨d, hread, hrest⟩ := Element.read_of_spelling hc h
  obtain ⟨u, hu, -⟩ := Element.exists_reads_read hc
  rw [hread] at hu
  refine ⟨u, d, ?_, hu, hrest⟩
  rw [next_of_rest hc hwhite (.inl rfl), tagToken_of_rest hc hdollar, hread]
  rfl

/-- An element that is the next token of the tag is spelled behind the white space. -/
theorem spelling_of_next {position : Position}
    (h : next ⟨c, .tag⟩ = (.ok ⟨.element element, position⟩, ⟨d, mode⟩)) :
    Element.Spelling c.skipWhiteSpace.rest element d.rest := by
  simp only [next, tagToken] at h
  split at h
  · simp at h
  cases hc : c.skipWhiteSpace.rest with
  | nil => simp [Cursor.peek?, hc] at h
  | cons ch tail =>
    simp only [Cursor.peek?_of_rest hc] at h
    rcases hread : Element.read ch c.skipWhiteSpace with ⟨result, e⟩
    rw [hread] at h
    cases result with
    | error error => simp [Except.map] at h
    | ok value =>
      obtain ⟨⟨rfl, -⟩, rfl, -⟩ : (value = element ∧ _) ∧ e = d ∧ _ := by
        simpa [Except.map] using h
      rw [← hc]
      exact Element.spelling_of_read hc hread

end Lexer
end TagTemplate
