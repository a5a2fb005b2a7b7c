import TagTemplate.Proofs.Composition.Spelling

/-!
# The characters that an element is written with

An element is the same in front of everything that ends it.  What that takes differs: a word
must not go on, a number must meet no further point, a sign no digit, and a string nothing at
all.  None of these is white space, so `EndsAlike` asks for all of it at once: what follows ends
every run without white space that the old text behind the element ended.

`Element.Spelling.exists_lexeme` splits an element from what follows, and says that it may be
put in front of anything that ends alike.  For texts and strings `exists_lexeme` says that they
are spelled by their own characters; what may follow them is known from
`FreeText.Spelling.append` and `Quoted.Spelling.append`.
-/

namespace TagTemplate

variable {input rest rest' : List Char}

/-- Every run without white space that ends in front of the first text ends in front of the
second. -/
def EndsAlike (rest rest' : List Char) : Prop :=
  ∀ p : Char → Bool, (∀ ch, Character.isWhiteSpace ch = true → p ch = false) →
    Stops p rest → Stops p rest'

namespace EndsAlike

theorem stops_isWordChar (h : EndsAlike rest rest') (hrest : Stops Character.isWordChar rest) :
    Stops Character.isWordChar rest' :=
  h _ (fun _ => Character.isWordChar_eq_false_of_isWhiteSpace) hrest

theorem stops_isDigit (h : EndsAlike rest rest') (hrest : Stops Char.isDigit rest) :
    Stops Char.isDigit rest' := by
  refine h _ (fun ch hwhite => ?_) hrest
  by_contra hdigit
  have hword := Character.isWordChar_of_isDigit (Bool.not_eq_false _ ▸ hdigit)
  rw [Character.isWordChar_eq_false_of_isWhiteSpace hwhite] at hword
  exact absurd hword (by simp)

theorem stops_point (h : EndsAlike rest rest') (hrest : Stops (· == '.') rest) :
    Stops (· == '.') rest' := by
  refine h _ (fun ch hwhite => ?_) hrest
  rw [beq_eq_false_iff_ne]
  rintro rfl
  exact absurd hwhite (by decide)

/-- White space ends every run, and so does the end. -/
theorem of_isWhiteSpace (h : ∀ ch ∈ rest'.head?, Character.isWhiteSpace ch = true) :
    EndsAlike rest rest' := by
  intro p hwhite _ ch hch
  exact hwhite ch (h ch hch)

/-- The first character decides. -/
theorem of_head?_eq (h : rest'.head? = rest.head?) : EndsAlike rest rest' := by
  intro p _ hrest ch hch
  rw [h] at hch
  exact hrest ch hch

end EndsAlike

/-- A text is spelled by its own characters. -/
theorem FreeText.Spelling.exists_lexeme {content : List Char}
    (h : Spelling input content rest) : ∃ w, input = w ++ rest ∧ Spelling w content [] := by
  induction h with
  | done _ => exact ⟨[], rfl, .done (.inl rfl)⟩
  | backslash _ ih =>
    obtain ⟨w, rfl, hw⟩ := ih
    exact ⟨_, rfl, .backslash hw⟩
  | brace _ ih =>
    obtain ⟨w, rfl, hw⟩ := ih
    exact ⟨_, rfl, .brace hw⟩
  | plain hc hopen _ ih =>
    obtain ⟨w, rfl, hw⟩ := ih
    exact ⟨_, rfl, .plain hc (fun hfront => hopen (hfront.trans ⟨_, rfl⟩)) hw⟩

/-- The inside of a string is spelled by its own characters. -/
theorem Quoted.Spelling.exists_lexeme {value : List Char} (h : Spelling input value rest) :
    ∃ w, input = w ++ rest ∧ Spelling w value [] := by
  induction h with
  | close => exact ⟨_, rfl, .close⟩
  | escape hd _ ih =>
    obtain ⟨w, rfl, hw⟩ := ih
    exact ⟨_, rfl, .escape hd hw⟩
  | plain hquote hslash hclose _ ih =>
    obtain ⟨w, rfl, hw⟩ := ih
    exact ⟨_, rfl, .plain hquote hslash (fun hfront => hclose (hfront.trans ⟨_, rfl⟩)) hw⟩

/-- **An element is the same in front of everything that ends it.** -/
theorem Element.Spelling.exists_lexeme {element : Element} (h : Spelling input element rest) :
    ∃ w, input = w ++ rest ∧
      ∀ rest', EndsAlike rest rest' → Spelling (w ++ rest') element rest' := by
  cases h with
  | @var w _ hw hrest => exact ⟨w, rfl, fun rest' h => .var hw (h.stops_isWordChar hrest)⟩
  | @function w _ hw hrest =>
    exact ⟨'@' :: w, rfl, fun rest' h => .function hw (h.stops_isWordChar hrest)⟩
  | @number n _ _ hn hword hpoint hvalue =>
    exact ⟨n.text.toList, rfl, fun rest' h =>
      .number hn (h.stops_isWordChar hword) (h.stops_point hpoint) hvalue⟩
  | string h =>
    obtain ⟨w, rfl, hw⟩ := h.exists_lexeme
    exact ⟨'"' :: w, rfl, fun rest' _ => .string (hw.append rest')⟩
  | @operator symbol _ hsymbol hminus =>
    exact ⟨[symbol], rfl, fun rest' h =>
      .operator hsymbol fun hsign => h.stops_isDigit (hminus hsign)⟩

end TagTemplate
