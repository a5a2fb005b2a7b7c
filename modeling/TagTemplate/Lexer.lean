import TagTemplate.Element.Reader
import TagTemplate.FreeText
import TagTemplate.Token

/-!
# Reading tokens

A lexer is a cursor with a mode.  Free text and tags have different tokens, and
the first token of a tag may be a keyword; the mode says which of the three places
the cursor is at.  `Lexer.next` reads one token.  It may be called again after an
error and after the end: an error leaves the lexer in the tag, or in the text, that
it was in, and the end of the document is returned again and again.

## Main statements

* `next_advances`: a reading takes a stretch of characters from the front.
* `next_rest_length_lt`: a token that is not the end of the document is at least one
  character long.  Reading all tokens of a document therefore ends.
-/

namespace TagTemplate

/-- The place of a lexer in the document. -/
inductive Mode where
  /-- In free text. -/
  | text
  /-- Right after the opening delimiter of a tag. -/
  | tagStart
  /-- In a tag, after its first token. -/
  | tag
  deriving DecidableEq, Repr

/-- The unread part of a document and the mode in which it is read. -/
structure Lexer where
  cursor : Cursor
  mode : Mode
  deriving DecidableEq, Repr

/-- A token or an error, and the lexer after it. -/
abbrev TokenReading := Except Error (Located Token) × Lexer

namespace Lexer

/-- The lexer at the start of a document. -/
def ofString (document : String) : Lexer := ⟨.ofString document, .text⟩

/-- Reads a token of free text: the opening of a tag, the end, or the text up to
whichever comes first. -/
def nextInText (c : Cursor) : TokenReading :=
  match c.eat? TagTemplate.tagOpen with
  | some d => (.ok ⟨.tagOpen, c.position⟩, ⟨d, .tagStart⟩)
  | none =>
      if c.atEnd then (.ok ⟨.endOfInput, c.position⟩, ⟨c, .text⟩)
      else
        let text := FreeText.scan c
        (text.1.map (⟨.text ·, c.position⟩), ⟨text.2, .text⟩)

/-- Reads a token of a tag at a cursor that does not stand at white space. -/
def tagToken (c : Cursor) : TokenReading :=
  match c.eat? TagTemplate.tagClose with
  | some d => (.ok ⟨.tagClose, c.position⟩, ⟨d, .text⟩)
  | none =>
      match c.peek? with
      | none => (.ok ⟨.endOfInput, c.position⟩, ⟨c, .tag⟩)
      | some ch =>
          let element := Element.read ch c
          (element.1.map (⟨.element ·, c.position⟩), ⟨element.2, .tag⟩)

/-- The token that a word at the start of a tag is. -/
def firstToken (word : String) : Token :=
  match Keyword.ofWord? word with
  | some keyword => .keyword keyword
  | none => .element (.var word)

/-- Reads the first token of a tag at a cursor that does not stand at white space.
A word that starts with a letter may be a keyword here, and only here. -/
def startToken (c : Cursor) : TokenReading :=
  match c.eat? ['='] with
  | some d => (.ok ⟨.keyword .echo, c.position⟩, ⟨d, .tag⟩)
  | none =>
      if c.peek?.any Character.isAlphabetic then
        let word := Element.readWord c
        (.ok ⟨firstToken word.1, c.position⟩, ⟨word.2, .tag⟩)
      else tagToken c

/-- Reads the next token. -/
def next (lexer : Lexer) : TokenReading :=
  match lexer.mode with
  | .text => nextInText lexer.cursor
  | .tagStart => startToken lexer.cursor.skipWhiteSpace
  | .tag => tagToken lexer.cursor.skipWhiteSpace

/-! ## Progress -/

/-- A reading takes a stretch of characters from the front, and an empty one only
where the result is the end of the document or an error. -/
def Advances (c : Cursor) (r : TokenReading) : Prop :=
  ∃ u, Cursor.Reads c u r.2.cursor ∧
    (u = [] → ∀ token, r.1 = .ok token → token.value = .endOfInput)

theorem Advances.of_reads {c d : Cursor} {u : List Char} {r : TokenReading}
    (h : Cursor.Reads c u d) (hr : Advances d r) : Advances c r := by
  obtain ⟨v, hv, hnil⟩ := hr
  exact ⟨u ++ v, h.trans hv, fun h => hnil (List.append_eq_nil_iff.mp h).2⟩

theorem nextInText_advances (c : Cursor) : Advances c (nextInText c) := by
  unfold nextInText
  split
  · exact ⟨_, Cursor.reads_of_eat? ‹_›, by simp [TagTemplate.tagOpen]⟩
  · rename_i hopen
    split
    · refine ⟨[], .refl _, fun _ token h => ?_⟩
      rw [← Except.ok.inj h]
    · rename_i hend
      obtain ⟨u, hu, hnil⟩ := FreeText.exists_reads_scan c
      refine ⟨u, hu, fun h => absurd (hnil h) ?_⟩
      rintro (h | h)
      · exact hend (by simp [Cursor.atEnd, h])
      · exact Cursor.eat?_eq_none_iff.mp hopen h

theorem tagToken_advances (c : Cursor) : Advances c (tagToken c) := by
  unfold tagToken
  split
  · exact ⟨_, Cursor.reads_of_eat? ‹_›, by simp [TagTemplate.tagClose]⟩
  · split
    · refine ⟨[], .refl _, fun _ token h => ?_⟩
      rw [← Except.ok.inj h]
    · rename_i ch hpeek
      obtain ⟨rest, hrest⟩ : ∃ rest, c.rest = ch :: rest := by
        simpa [Cursor.peek?, List.head?_eq_some_iff] using hpeek
      obtain ⟨u, hu, hnil⟩ := Element.exists_reads_read hrest
      refine ⟨u, hu, fun h token htoken => ?_⟩
      obtain ⟨error, herror⟩ := hnil h
      simp [herror, Except.map] at htoken

theorem startToken_advances (c : Cursor) : Advances c (startToken c) := by
  unfold startToken
  split
  · exact ⟨_, Cursor.reads_of_eat? ‹_›, by simp⟩
  · split
    · rename_i hpeek
      refine ⟨_, Element.reads_readWord c, fun h => ?_⟩
      rw [Element.readWord, Cursor.takeWhile_fst_toList] at h
      cases hrest : c.rest with
      | nil => simp [Cursor.peek?, hrest] at hpeek
      | cons ch rest =>
        have halpha : Character.isAlphabetic ch = true := by
          simpa [Cursor.peek?, hrest] using hpeek
        simp [hrest, Character.isWordChar_of_isAlphabetic halpha] at h
    · exact tagToken_advances c

theorem next_advances (lexer : Lexer) : Advances lexer.cursor lexer.next := by
  unfold next
  split
  · exact nextInText_advances _
  · exact (startToken_advances _).of_reads (Cursor.reads_skipWhiteSpace _)
  · exact (tagToken_advances _).of_reads (Cursor.reads_skipWhiteSpace _)

/-- A token that is not the end of the document is at least one character long. -/
theorem next_rest_length_lt {lexer lexer' : Lexer} {token : Located Token}
    (h : lexer.next = (.ok token, lexer')) (ht : token.value ≠ .endOfInput) :
    lexer'.cursor.rest.length < lexer.cursor.rest.length := by
  obtain ⟨u, hu, hnil⟩ := next_advances lexer
  rw [h] at hu hnil
  exact hu.length_lt fun h => ht (hnil h token rfl)

end Lexer
end TagTemplate
