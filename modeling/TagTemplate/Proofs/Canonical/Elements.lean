import TagTemplate.Canonical
import TagTemplate.Proofs.Numbers.Written
import TagTemplate.Proofs.Reading.Token

/-!
# Elements read back from their texts

`Element.WellFormed` says which elements have a text that reads back: names are
identifiers, doubles are finite, operators are among the five, and strings do not hold
the delimiter that closes a tag.

* `Element.spelling_text`: in front of white space, the text of such an element spells it.
* `Element.listing_listText`: the texts of elements, each after a space, spell them.
* `Element.Spelling.wellFormed`: nothing else is ever spelled.
* `Lexer.next_elementText_iff`: the lexer gives back exactly the elements that are
  well-formed.
-/

namespace TagTemplate

/-! ## Strings -/

namespace Quoted

variable {value rest : List Char}

/-- A character is written as its escape if it has one, and as itself otherwise. -/
theorem escape_cases (c : Char) : (∃ d, (d, c) ∈ escapes ∧ escape c = ['\\', d]) ∨
    (c ≠ '"' ∧ c ≠ '\\' ∧ escape c = [c]) := by
  unfold escape
  split
  · rename_i hc
    exact .inl ⟨'"', by rw [hc]; decide, rfl⟩
  split
  · rename_i hc
    exact .inl ⟨'\\', by rw [hc]; decide, rfl⟩
  split
  · rename_i hc
    exact .inl ⟨'n', by rw [hc]; decide, rfl⟩
  split
  · rename_i hc
    exact .inl ⟨'r', by rw [hc]; decide, rfl⟩
  split
  · rename_i hc
    exact .inl ⟨'t', by rw [hc]; decide, rfl⟩
  · rename_i hquote hslash _ _ _
    exact .inr ⟨hquote, hslash, rfl⟩

/-- No escape starts with a brace, so one at the front stands for itself. -/
theorem head?_eq_of_head?_escaped
    (h : (value.flatMap escape ++ '"' :: rest).head? = some '}') : value.head? = some '}' := by
  cases value with
  | nil => exact absurd h (by simp)
  | cons c value =>
    rw [List.flatMap_cons] at h
    rcases escape_cases c with ⟨d, -, hescape⟩ | ⟨-, -, hescape⟩
    · rw [hescape] at h
      exact absurd h (by simp)
    · rw [hescape] at h
      exact h

/-- The written form of a string spells it, unless the string holds the delimiter that
closes a tag. -/
theorem spelling_escaped (h : ¬ tagClose <:+: value) (rest : List Char) :
    Spelling (value.flatMap escape ++ '"' :: rest) value rest := by
  induction value with
  | nil => exact .close
  | cons c value ih =>
    have hspell := ih fun hinfix => h (List.infix_cons hinfix)
    rw [List.flatMap_cons, List.append_assoc]
    rcases escape_cases c with ⟨d, hd, hescape⟩ | ⟨hquote, hslash, hescape⟩
    · rw [hescape]
      exact .escape hd hspell
    · rw [hescape]
      refine .plain hquote hslash (fun hfront => h ?_) hspell
      -- the closing delimiter would stand in the string itself
      obtain ⟨rfl, hhead⟩ := tagClose_prefix_cons_iff.mp hfront
      obtain ⟨tail, rfl⟩ := List.head?_eq_some_iff.mp (head?_eq_of_head?_escaped hhead)
      exact (List.prefix_append tagClose tail).isInfix

/-- The first brace of a value stands for itself. -/
theorem Spelling.head?_eq {input : List Char} (h : Spelling input value rest)
    (hhead : value.head? = some '}') : input.head? = some '}' := by
  cases h with
  | close => exact absurd hhead (by simp)
  | escape hd h =>
    have hbrace : ∀ e ∈ escapes, e.2 ≠ '}' := by decide
    exact absurd (Option.some.inj hhead) (hbrace _ hd)
  | plain hquote hslash hclose h => exact hhead

/-- A string that is spelled does not hold the delimiter that closes a tag. -/
theorem Spelling.not_tagClose_infix {input : List Char} (h : Spelling input value rest) :
    ¬ tagClose <:+: value := by
  induction h with
  | close => simp [tagClose]
  | @escape d c input value rest hd h ih =>
    rw [List.infix_cons_iff]
    rintro (hfront | hinfix)
    · obtain ⟨rfl, -⟩ := tagClose_prefix_cons_iff.mp hfront
      have hdollar : ∀ e ∈ escapes, e.2 ≠ '$' := by decide
      exact hdollar _ hd rfl
    · exact ih hinfix
  | @plain c input value rest hquote hslash hclose h ih =>
    rw [List.infix_cons_iff]
    rintro (hfront | hinfix)
    · obtain ⟨rfl, hhead⟩ := tagClose_prefix_cons_iff.mp hfront
      exact hclose (tagClose_prefix_cons_iff.mpr ⟨rfl, h.head?_eq hhead⟩)
    · exact ih hinfix

end Quoted

/-! ## Elements -/

namespace Element

/-- White space follows, or nothing. -/
def StartsBlank (rest : List Char) : Prop :=
  ∀ ch ∈ rest.head?, Character.isWhiteSpace ch = true

theorem startsBlank_space {rest : List Char} : StartsBlank (' ' :: rest) := by
  rintro ch ⟨⟩
  decide

/-- The element has a text that reads back. -/
def WellFormed : Element → Prop
  | var name => isIdentifier name.toList = true
  | function name => ∃ w, isIdentifier w = true ∧ name = String.ofList ('@' :: w)
  | integer _ => True
  | double value => value.isFinite = true
  | string value => ¬ tagClose <:+: value.toList
  | operator symbol => symbol ∈ operatorSymbols

/-- In front of white space and at the end, the text of an element spells it. -/
theorem spelling_text {element : Element} (h : element.WellFormed) {rest : List Char}
    (hrest : StartsBlank rest) : Spelling (element.text.toList ++ rest) element rest := by
  have hword : Stops Character.isWordChar rest := fun c hc =>
    Character.isWordChar_eq_false_of_isWhiteSpace (hrest c hc)
  have hpoint : Stops (· == '.') rest := fun c hc => by
    rw [beq_eq_false_iff_ne]
    rintro rfl
    exact absurd (hrest '.' hc) (by decide)
  cases element with
  | var name =>
    have hvariable := Spelling.var h hword
    rwa [String.ofList_toList] at hvariable
  | function name =>
    obtain ⟨w, hw, rfl⟩ := h
    have hfunction := Spelling.function hw hword
    rw [text, String.toList_ofList]
    exact hfunction
  | integer value =>
    obtain ⟨n, hn, htext, hvalue⟩ := exists_numeral_of_integer value
    rw [text, ← htext]
    exact .number hn hword hpoint hvalue
  | double value =>
    obtain ⟨n, hn, htext, hvalue⟩ := exists_numeral_of_double h
    rw [text, ← htext]
    exact .number hn hword hpoint hvalue
  | string value =>
    have hstring := Spelling.string (Quoted.spelling_escaped h rest)
    rw [String.ofList_toList] at hstring
    rw [text, String.toList_ofList, Quoted.encode]
    simpa using hstring
  | operator symbol =>
    rw [text, String.toList_singleton]
    exact .operator h fun _ => Numeral.stops_isDigit hword

/-- Only elements with a text that reads back are spelled. -/
theorem Spelling.wellFormed {input rest : List Char} {element : Element}
    (h : Spelling input element rest) : element.WellFormed := by
  cases h with
  | var hw hrest =>
    show isIdentifier (String.ofList _).toList = true
    rw [String.toList_ofList]
    exact hw
  | function hw hrest => exact ⟨_, hw, rfl⟩
  | number hn hword hpoint hvalue =>
    cases hvalue with
    | integer hpoint h => trivial
    | double hpoint h => exact Binary64.isFinite_of_ofRatio? h
  | string h =>
    show ¬ tagClose <:+: (String.ofList _).toList
    rw [String.toList_ofList]
    exact h.not_tagClose_infix
  | operator hc hminus => exact hc

theorem Listing.wellFormed {input rest : List Char} {elements : List Element}
    (h : Listing input elements rest) : ∀ element ∈ elements, element.WellFormed := by
  induction h with
  | close => simp
  | cons hblanks helement _ ih =>
    intro element hmem
    rcases List.mem_cons.mp hmem with rfl | hmem
    · exact helement.wellFormed
    · exact ih element hmem

theorem blanks_refl (input : List Char) : Blanks input input := ⟨[], by simp, rfl⟩

theorem blanks_space (rest : List Char) : Blanks (' ' :: rest) rest :=
  ⟨[' '], by simp only [List.mem_singleton]; rintro c rfl; decide, rfl⟩

/-- After a space, the texts of elements with a space between them, another space and the
closing delimiter spell the elements. -/
theorem listing_listText {elements : List Element} (h : ∀ element ∈ elements, element.WellFormed)
    (rest : List Char) :
    Listing (' ' :: ((listText elements).toList ++ ' ' :: (tagClose ++ rest))) elements rest := by
  induction elements with
  | nil =>
    refine .close ⟨[' ', ' '], ?_, rfl⟩
    simp only [List.mem_cons, List.not_mem_nil, or_false]
    rintro c (rfl | rfl) <;> decide
  | cons element elements ih =>
    have hfirst := h element List.mem_cons_self
    have hmore := ih fun e he => h e (List.mem_cons_of_mem _ he)
    cases elements with
    | nil =>
      have hlast : Listing (' ' :: (tagClose ++ rest)) [] rest := .close (blanks_space _)
      have hone : listText [element] = element.text := by simp [listText]
      rw [hone]
      exact .cons (blanks_space _) (spelling_text hfirst startsBlank_space) hlast
    | cons second elements =>
      have hjoin : (listText (element :: second :: elements)).toList =
          element.text.toList ++ ' ' :: (listText (second :: elements)).toList := by
        simp [listText]
      rw [hjoin, List.append_assoc]
      exact .cons (blanks_space _) (spelling_text hfirst startsBlank_space) hmore

end Element

/-! ## The lexer -/

/-- **The lexer gives back exactly the well-formed elements.**  In a tag, the text of an
element in front of white space or at the end is read as this element, where it stands and
to its last character, if and only if the element is well-formed. -/
theorem Lexer.next_elementText_iff (element : Element) {rest : List Char} (position : Position)
    (hrest : Element.StartsBlank rest) :
    next ⟨⟨element.text.toList ++ rest, position⟩, .tag⟩ =
        (.ok ⟨.element element, position⟩,
          ⟨⟨rest, position.after element.text.toList⟩, .tag⟩) ↔
      element.WellFormed := by
  constructor
  · intro h
    exact (spelling_of_next h).wellFormed
  · intro h
    have hspell := Element.spelling_text h hrest
    obtain ⟨u, d, hnext, hread, hafter⟩ :=
      next_of_spelling (c := ⟨element.text.toList ++ rest, position⟩) hspell
    have hwhole : Cursor.Reads ⟨element.text.toList ++ rest, position⟩ element.text.toList
        ⟨rest, position.after element.text.toList⟩ := ⟨rfl, rfl⟩
    obtain rfl := hread.unique hwhole hafter
    exact hnext

/-- A string that holds a quote and a line feed, at a line end; and a name with a space in
it, of which the lexer gives back another element. -/
theorem Lexer.next_elementText_iff_of_quote :
    Element.StartsBlank ['\n'] ∧
      next ⟨⟨(Element.string "a\"\n").text.toList ++ ['\n'], ⟨1, 5⟩⟩, .tag⟩ =
        (.ok ⟨.element (.string "a\"\n"), ⟨1, 5⟩⟩, ⟨⟨['\n'], ⟨1, 12⟩⟩, .tag⟩) ∧
      next ⟨⟨(Element.var "a b").text.toList ++ ['\n'], ⟨1, 5⟩⟩, .tag⟩ ≠
        (.ok ⟨.element (.var "a b"), ⟨1, 5⟩⟩, ⟨⟨['\n'], ⟨1, 8⟩⟩, .tag⟩) := by
  have hrest : Element.StartsBlank ['\n'] := by
    rintro ch ⟨⟩
    decide
  have hstring : (Element.string "a\"\n").WellFormed := by
    show ¬ tagClose <:+: "a\"\n".toList
    decide
  have hname : ¬ (Element.var "a b").WellFormed := by
    show ¬ isIdentifier "a b".toList = true
    decide
  exact ⟨hrest, (next_elementText_iff (.string "a\"\n") ⟨1, 5⟩ hrest).mpr hstring,
    fun h => hname ((next_elementText_iff (.var "a b") ⟨1, 5⟩ hrest).mp h)⟩

end TagTemplate
