import TagTemplate.Lexer
import TagTemplate.Proofs.Canonical.Items

/-!
# The protocol of the lexer

A lexer may be asked for tokens without end: after an error it goes on, and after the end of
the document it says so again.  Whatever the document, the answers keep to a protocol
(`Lexer.keepsProtocol`): the delimiters of tags alternate, a keyword comes first in a tag if
it comes at all, elements come in tags and texts between them, an error changes neither, and
the end is the end.

Everything follows from what a single call may do.  `Lexer.Turn` lists the nine cases, and
`Lexer.turn_next` says that there are no others.  A run of calls is `Lexer.after`, and what
carries over from one call to the next is that the lexer is in the mode for texts exactly
when no tag is open (`Lexer.mode_after_eq_text_iff`).
-/

namespace TagTemplate

/-- Whether the token is one of the two delimiters of a tag. -/
def Token.isDelimiter : Token → Bool
  | tagOpen => true
  | tagClose => true
  | _ => false

/-- Delimiters of tags that alternate, and of which the first opens a tag. -/
def Token.Alternate (tokens : List Token) : Prop :=
  ∀ i token, tokens[i]? = some token → token = if i % 2 = 0 then .tagOpen else .tagClose

namespace Lexer

/-! ## One call -/

/-- What a call returns, but for the position of a token. -/
def answer (r : TokenReading) : Except Error Token := r.1.map Located.value

/-- What a call may return, and the lexer that it leaves behind. -/
inductive Turn : Lexer → TokenReading → Prop where
  | opens {c d : Cursor} : Turn ⟨c, .text⟩ (.ok ⟨.tagOpen, c.position⟩, ⟨d, .tagStart⟩)
  /-- A text holds something, and goes on until nothing is left or a tag opens. -/
  | text {c d : Cursor} {content : String}
      (hfront : ¬ (c.rest = [] ∨ TagTemplate.tagOpen <+: c.rest)) (hne : content ≠ "")
      (hend : d.rest = [] ∨ TagTemplate.tagOpen <+: d.rest) :
      Turn ⟨c, .text⟩ (.ok ⟨.text content, c.position⟩, ⟨d, .text⟩)
  | textError {c d : Cursor} {error : Error}
      (hfront : ¬ (c.rest = [] ∨ TagTemplate.tagOpen <+: c.rest)) :
      Turn ⟨c, .text⟩ (.error error, ⟨d, .text⟩)
  | endInText {c : Cursor} (hend : c.rest = []) :
      Turn ⟨c, .text⟩ (.ok ⟨.endOfInput, c.position⟩, ⟨c, .text⟩)
  | keyword {c d : Cursor} {position : Position} {keyword : Keyword} :
      Turn ⟨c, .tagStart⟩ (.ok ⟨.keyword keyword, position⟩, ⟨d, .tag⟩)
  | element {lexer : Lexer} {d : Cursor} {position : Position} {element : Element}
      (htag : lexer.mode ≠ .text) : Turn lexer (.ok ⟨.element element, position⟩, ⟨d, .tag⟩)
  | closes {lexer : Lexer} {d : Cursor} {position : Position} (htag : lexer.mode ≠ .text) :
      Turn lexer (.ok ⟨.tagClose, position⟩, ⟨d, .text⟩)
  | tagError {lexer : Lexer} {d : Cursor} {error : Error} (htag : lexer.mode ≠ .text) :
      Turn lexer (.error error, ⟨d, .tag⟩)
  | endInTag {lexer : Lexer} {d : Cursor} (htag : lexer.mode ≠ .text) (hend : d.rest = []) :
      Turn lexer (.ok ⟨.endOfInput, d.position⟩, ⟨d, .tag⟩)

theorem turn_nextInText (c : Cursor) : Turn ⟨c, .text⟩ (nextInText c) := by
  unfold nextInText
  cases hopen : c.eat? TagTemplate.tagOpen with
  | some d => exact .opens
  | none =>
    cases hend : c.atEnd with
    | true =>
      simp only [if_true]
      exact .endInText (List.isEmpty_iff.mp hend)
    | false =>
      have hfront : ¬ (c.rest = [] ∨ TagTemplate.tagOpen <+: c.rest) := by
        rintro (hnil | htag)
        · simp [Cursor.atEnd, hnil] at hend
        · exact Cursor.eat?_eq_none_iff.mp hopen htag
      rcases hscan : FreeText.scan c with ⟨result, d⟩
      simp only [Bool.false_eq_true, if_false]
      cases result with
      | error error => exact .textError hfront
      | ok content =>
        have hspell := FreeText.spelling_of_scan hscan
        refine .text hfront ?_ (Item.end_of_spelling hspell)
        rintro rfl
        exact hfront (Item.tagOpen_prefix_of_spelling_nil hspell)

theorem turn_tagToken {lexer : Lexer} (htag : lexer.mode ≠ .text) (c : Cursor) :
    Turn lexer (tagToken c) := by
  unfold tagToken
  cases c.eat? TagTemplate.tagClose with
  | some d => exact .closes htag
  | none =>
    cases hpeek : c.peek? with
    | none => exact .endInTag htag (List.head?_eq_none_iff.mp hpeek)
    | some ch =>
      rcases hread : Element.read ch c with ⟨result, d⟩
      simp only [hread]
      cases result with
      | error error => exact .tagError htag
      | ok element => exact .element htag

theorem turn_startToken (start c : Cursor) : Turn ⟨start, .tagStart⟩ (startToken c) := by
  unfold startToken
  cases c.eat? ['='] with
  | some d => exact .keyword
  | none =>
    cases c.peek?.any Character.isAlphabetic with
    | false => exact turn_tagToken (by simp) c
    | true =>
      simp only [if_true, firstToken]
      cases Keyword.ofWord? (Element.readWord c).1 with
      | some keyword => exact .keyword
      | none => exact .element (by simp)

/-- **Every call is one of the turns.** -/
theorem turn_next (lexer : Lexer) : Turn lexer lexer.next := by
  obtain ⟨c, mode⟩ := lexer
  cases mode with
  | text => exact turn_nextInText c
  | tagStart => exact turn_startToken c c.skipWhiteSpace
  | tag => exact turn_tagToken (by simp) c.skipWhiteSpace

namespace Turn

variable {lexer : Lexer} {r : TokenReading}

theorem mode_of_tagOpen (h : Turn lexer r) (hr : answer r = .ok .tagOpen) :
    lexer.mode = .text := by
  cases h <;> simp_all [answer, Except.map]

theorem mode_of_keyword {keyword : Keyword} (h : Turn lexer r)
    (hr : answer r = .ok (.keyword keyword)) : lexer.mode = .tagStart := by
  cases h <;> simp_all [answer, Except.map]

theorem mode_of_element {element : TagTemplate.Element} (h : Turn lexer r)
    (hr : answer r = .ok (.element element)) : lexer.mode ≠ .text := by
  cases h <;> simp_all [answer, Except.map]

theorem mode_of_tagClose (h : Turn lexer r) (hr : answer r = .ok .tagClose) :
    lexer.mode ≠ .text := by
  cases h <;> simp_all [answer, Except.map]

/-- A text is not empty, and it ends where no other text can start. -/
theorem of_text {content : String} (h : Turn lexer r)
    (hr : answer r = .ok (.text content)) :
    lexer.mode = .text ∧ content ≠ "" ∧ r.2.mode = .text ∧
      (r.2.cursor.rest = [] ∨ TagTemplate.tagOpen <+: r.2.cursor.rest) := by
  cases h <;> simp_all [answer, Except.map]

/-- An error leaves the lexer in the tag, or in the text, in which the call began. -/
theorem mode_of_error {error : Error} (h : Turn lexer r)
    (hr : answer r = .error error) :
    r.2.mode = if lexer.mode = .text then .text else .tag := by
  cases h <;> simp_all [answer, Except.map]

/-- After a call the lexer is right after the opening of a tag when the call returned
that opening. -/
theorem mode_eq_tagStart_iff (h : Turn lexer r) :
    r.2.mode = .tagStart ↔ answer r = .ok .tagOpen := by
  cases h <;> simp [answer, Except.map]

/-- After a call the lexer is in a text when the call returned the closing of a tag, or
when it was in a text before and the call did not open a tag. -/
theorem mode_eq_text_iff (h : Turn lexer r) :
    r.2.mode = .text ↔ answer r = .ok .tagClose ∨
      (lexer.mode = .text ∧ answer r ≠ .ok .tagOpen) := by
  cases h <;> simp_all [answer, Except.map]

/-- Where a text has ended, the next call returns the opening of a tag or the end. -/
theorem of_end_of_text (h : Turn lexer r) (hmode : lexer.mode = .text)
    (hend : lexer.cursor.rest = [] ∨ TagTemplate.tagOpen <+: lexer.cursor.rest) :
    answer r = .ok .tagOpen ∨ answer r = .ok .endOfInput := by
  cases h <;> simp_all [answer, Except.map]

/-- The end is returned only where nothing is left. -/
theorem rest_of_end (h : Turn lexer r) (hr : answer r = .ok .endOfInput) :
    r.2.cursor.rest = [] := by
  cases h <;> simp_all [answer, Except.map]

/-- **The end is returned again.**  The lexer that has returned it returns it once more, at
the same position, and stays as it is. -/
theorem next_of_end (h : Turn lexer r) (hr : answer r = .ok .endOfInput) :
    r.2.next = r := by
  cases h with
  | @endInText c hend =>
    have hopen : c.eat? TagTemplate.tagOpen = none := by
      rw [Cursor.eat?_eq_none_iff, hend]
      simp [TagTemplate.tagOpen]
    simp [next, nextInText, hopen, Cursor.atEnd, hend]
  | @endInTag lexer d htag hend =>
    have hclose : d.eat? TagTemplate.tagClose = none := by
      rw [Cursor.eat?_eq_none_iff, hend]
      simp [TagTemplate.tagClose]
    have hskip : d.skipWhiteSpace = d := by
      obtain ⟨rest, position⟩ := d
      obtain rfl : rest = [] := hend
      rfl
    simp [next, tagToken, hskip, hclose, Cursor.peek?, hend]
  | _ => simp [answer, Except.map] at hr

end Turn

/-! ## A run of calls -/

/-- The lexer of a document after so many calls. -/
def after (document : String) : Nat → Lexer
  | 0 => ofString document
  | n + 1 => (after document n).next.2

/-- What the call after so many others returns: a token, or an error. -/
def outcome (document : String) (n : Nat) : Except Error Token := answer (after document n).next

/-- The delimiters of tags among what so many calls return, in order. -/
def delimiters (document : String) (n : Nat) : List Token :=
  (List.range n).filterMap fun i => (outcome document i).toOption.filter Token.isDelimiter

/-- After so many calls, the opening of a tag has been returned, and no closing since. -/
def InTag (document : String) (n : Nat) : Prop :=
  (delimiters document n).getLast? = some .tagOpen

variable {document : String} {n : Nat}

theorem turn_after (document : String) (n : Nat) :
    Turn (after document n) (after document n).next := turn_next _

theorem delimiters_succ (document : String) (n : Nat) : delimiters document (n + 1) =
    delimiters document n ++ ((outcome document n).toOption.filter Token.isDelimiter).toList := by
  rw [delimiters, delimiters, List.range_succ, List.filterMap_append]
  cases h : (outcome document n).toOption.filter Token.isDelimiter <;> simp [h]

/-- A delimiter is put behind those before it. -/
theorem delimiters_succ_of_isDelimiter {token : Token} (h : outcome document n = .ok token)
    (htoken : token.isDelimiter = true) :
    delimiters document (n + 1) = delimiters document n ++ [token] := by
  rw [delimiters_succ, h]
  simp [Except.toOption, htoken]

/-- A call that returns neither delimiter leaves them as they are. -/
theorem delimiters_succ_of_ne (hopen : outcome document n ≠ .ok .tagOpen)
    (hclose : outcome document n ≠ .ok .tagClose) :
    delimiters document (n + 1) = delimiters document n := by
  rw [delimiters_succ]
  cases h : outcome document n with
  | error error => simp [Except.toOption]
  | ok token =>
    rw [h] at hopen hclose
    cases token <;> simp_all [Except.toOption, Token.isDelimiter]

/-- **The lexer is in the mode for texts exactly when no tag is open.** -/
theorem mode_after_eq_text_iff (document : String) (n : Nat) :
    (after document n).mode = .text ↔ ¬ InTag document n := by
  induction n with
  | zero => simp [after, ofString, InTag, delimiters]
  | succ n ih =>
    have hmode : (after document (n + 1)).mode = .text ↔ outcome document n = .ok .tagClose ∨
        ((after document n).mode = .text ∧ outcome document n ≠ .ok .tagOpen) :=
      (turn_after document n).mode_eq_text_iff
    rw [hmode, ih, InTag, InTag]
    by_cases hopen : outcome document n = .ok .tagOpen
    · rw [delimiters_succ_of_isDelimiter hopen rfl, hopen]
      simp
    by_cases hclose : outcome document n = .ok .tagClose
    · rw [delimiters_succ_of_isDelimiter hclose rfl, hclose]
      simp
    · rw [delimiters_succ_of_ne hopen hclose]
      simp [hopen, hclose]

/-- The last of alternating delimiters opens a tag when there is an odd number of them. -/
theorem getLast?_of_alternate {tokens : List Token} (h : Token.Alternate tokens) :
    tokens.getLast? = some .tagOpen ↔ tokens.length % 2 = 1 := by
  rw [List.getLast?_eq_getElem?]
  constructor
  · intro hlast
    have hlt := (List.getElem?_eq_some_iff.mp hlast).1
    have heven : (tokens.length - 1) % 2 = 0 := by
      by_contra hodd
      have htoken := h _ _ hlast
      rw [if_neg hodd] at htoken
      exact absurd htoken (by simp)
    omega
  · intro hodd
    have hlt : tokens.length - 1 < tokens.length := by omega
    have heven : (tokens.length - 1) % 2 = 0 := by omega
    have htoken := h _ _ (List.getElem?_eq_getElem hlt)
    rw [if_pos heven] at htoken
    rw [List.getElem?_eq_getElem hlt, htoken]

theorem alternate_append {tokens : List Token} {token : Token} (h : Token.Alternate tokens)
    (htoken : token = if tokens.length % 2 = 0 then .tagOpen else .tagClose) :
    Token.Alternate (tokens ++ [token]) := by
  intro i other hother
  rcases Nat.lt_or_ge i tokens.length with hlt | hge
  · rw [List.getElem?_append_left hlt] at hother
    exact h i other hother
  · obtain ⟨hlength, hget⟩ := List.getElem?_eq_some_iff.mp hother
    obtain rfl : i = tokens.length := by simp at hlength; omega
    rw [← hget, List.getElem_append_right hge]
    simpa using htoken

/-- **The delimiters alternate**, and the first of them opens a tag. -/
theorem alternate_delimiters (document : String) (n : Nat) :
    Token.Alternate (delimiters document n) := by
  induction n with
  | zero => simp [Token.Alternate, delimiters]
  | succ n ih =>
    have hmode := mode_after_eq_text_iff document n
    rw [InTag, getLast?_of_alternate ih] at hmode
    by_cases hopen : outcome document n = .ok .tagOpen
    · have hlength := hmode.mp ((turn_after document n).mode_of_tagOpen hopen)
      rw [delimiters_succ_of_isDelimiter hopen rfl]
      exact alternate_append ih (by rw [if_pos (by omega)])
    by_cases hclose : outcome document n = .ok .tagClose
    · have hlength := mt hmode.mpr ((turn_after document n).mode_of_tagClose hclose)
      rw [delimiters_succ_of_isDelimiter hclose rfl]
      exact alternate_append ih (by rw [if_neg (by omega)])
    · rw [delimiters_succ_of_ne hopen hclose]
      exact ih

/-- Right after the opening of a tag is where the last call returned it. -/
theorem mode_after_eq_tagStart_iff (document : String) (n : Nat) :
    (after document n).mode = .tagStart ↔ ∃ m, n = m + 1 ∧ outcome document m = .ok .tagOpen := by
  cases n with
  | zero => simp [after, ofString]
  | succ m =>
    have hmode : (after document (m + 1)).mode = .tagStart ↔ outcome document m = .ok .tagOpen :=
      (turn_after document m).mode_eq_tagStart_iff
    rw [hmode]
    constructor
    · intro h
      exact ⟨m, rfl, h⟩
    · rintro ⟨k, hk, h⟩
      obtain rfl := Nat.succ.inj hk
      exact h

/-- After a text the next call returns the opening of a tag or the end. -/
theorem outcome_succ_of_text {content : String}
    (h : outcome document n = .ok (.text content)) :
    outcome document (n + 1) = .ok .tagOpen ∨ outcome document (n + 1) = .ok .endOfInput := by
  obtain ⟨-, -, hmode, hend⟩ := (turn_after document n).of_text h
  exact (turn_after document (n + 1)).of_end_of_text hmode hend

/-- After the end every call returns the end again, and leaves the lexer as it is. -/
theorem next_after_of_end (h : outcome document n = .ok .endOfInput) (k : Nat) :
    (after document (n + 1 + k)).next = (after document n).next := by
  have hagain : (after document (n + 1)).next = (after document n).next :=
    (turn_after document n).next_of_end h
  induction k with
  | zero => exact hagain
  | succ k ih =>
    have hsame : after document (n + 1 + (k + 1)) = after document (n + 1) :=
      congrArg Prod.snd ih
    rw [hsame]
    exact hagain

/-! ## The protocol -/

/-- What the calls on a document return, in which order, and in which mode each of them leaves
the lexer. -/
structure KeepsProtocol (document : String) : Prop where
  /-- The delimiters of tags alternate, starting with an opening one. -/
  delimiters_alternate : ∀ n i token, (delimiters document n)[i]? = some token →
    token = if i % 2 = 0 then .tagOpen else .tagClose
  /-- A keyword is returned only right after the opening of a tag. -/
  keyword_after_tagOpen : ∀ n keyword, outcome document n = .ok (.keyword keyword) →
    ∃ m, n = m + 1 ∧ outcome document m = .ok .tagOpen
  /-- An element is returned only in a tag. -/
  element_in_tag : ∀ n element, outcome document n = .ok (.element element) → InTag document n
  /-- A text is returned only outside of tags, it is not empty, and a tag or the end follows. -/
  text_outside : ∀ n content, outcome document n = .ok (.text content) →
    ¬ InTag document n ∧ content ≠ "" ∧
      (outcome document (n + 1) = .ok .tagOpen ∨ outcome document (n + 1) = .ok .endOfInput)
  /-- An error opens and closes no tag, and the mode after it is that of the place where the
  call began. -/
  error_stays : ∀ n error, outcome document n = .error error →
    (InTag document (n + 1) ↔ InTag document n) ∧
      (after document (n + 1)).mode = if (after document n).mode = .text then .text else .tag
  /-- The mode is that for texts exactly outside of tags. -/
  mode_eq_text_iff : ∀ n, (after document n).mode = .text ↔ ¬ InTag document n
  /-- The mode is that for the start of a tag exactly when the last call opened one. -/
  mode_eq_tagStart_iff : ∀ n, (after document n).mode = .tagStart ↔
    ∃ m, n = m + 1 ∧ outcome document m = .ok .tagOpen
  /-- The end is returned only when all has been read. -/
  end_at_end : ∀ n, outcome document n = .ok .endOfInput →
    (after document (n + 1)).cursor.rest = []
  /-- Once the end is returned, every later call returns the end at the same position, and
  leaves the same lexer. -/
  end_stays : ∀ n position, (after document n).next.1 = .ok ⟨.endOfInput, position⟩ →
    ∀ k, (after document (n + 1 + k)).next = (.ok ⟨.endOfInput, position⟩, after document (n + 1))

/-- **The lexer keeps to the protocol on every document**, however often it is called. -/
theorem keepsProtocol (document : String) : KeepsProtocol document where
  delimiters_alternate n := alternate_delimiters document n
  keyword_after_tagOpen n _ h :=
    (mode_after_eq_tagStart_iff document n).mp ((turn_after document n).mode_of_keyword h)
  element_in_tag n _ h := by
    have hmode := (turn_after document n).mode_of_element h
    rwa [ne_eq, mode_after_eq_text_iff, not_not] at hmode
  text_outside n _ h := by
    obtain ⟨hmode, hne, -, -⟩ := (turn_after document n).of_text h
    exact ⟨(mode_after_eq_text_iff document n).mp hmode, hne, outcome_succ_of_text h⟩
  error_stays n _ h := by
    refine ⟨?_, (turn_after document n).mode_of_error h⟩
    rw [InTag, InTag, delimiters_succ_of_ne (by simp [h]) (by simp [h])]
  mode_eq_text_iff := mode_after_eq_text_iff document
  mode_eq_tagStart_iff := mode_after_eq_tagStart_iff document
  end_at_end n h := (turn_after document n).rest_of_end h
  end_stays n position h k := by
    have hend : outcome document n = .ok .endOfInput := by
      rw [outcome, answer, h]
      rfl
    rw [next_after_of_end hend, ← h]
    rfl

end Lexer
end TagTemplate
