import TagTemplate.Proofs.Composition
import TagTemplate.Proofs.Layout.Spelling
import TagTemplate.Proofs.Progress

/-!
# The layout of tags

How the tokens of a tag are spaced does not matter, and neither does the case of its keyword.
`Relaid` says what another layout of a document is, call by call: the lexer reads the document,
and the other text has the same tokens in the same order, with other white space in front of
each token of a tag, and with the letters of `FOR` and `END` in any case.  White space may be
put where there was none, but where there was some, some is left.

The grammar is indifferent to all this, part by part: what is spelled by a document is spelled
by every layout of it.

* `Relaid.endsAlike`: in a tag, the other layout ends every word and number in front of it.
* `Relaid.keyword`, `Relaid.listing`, `Relaid.item`: the keyword of a tag, its elements, a tag.
* `Relaid.spells`: the items of the document.
* `parse_relaid`: what this says of documents that are read; `relaid_of_parse`: each of them is
  a layout of itself.
-/

namespace TagTemplate

open Cursor (Reads)

/-! ## Layouts -/

/-- White space `gap` is rewritten as `gap'`, which is empty only if `gap` was. -/
structure Respaced (gap gap' : List Char) : Prop where
  isWhiteSpace : ∀ ch ∈ gap', Character.isWhiteSpace ch = true
  eq_nil : gap' = [] → gap = []

/-- The characters of a token are written anew: those of `FOR` and `END` in any case, and all
others as they are. -/
def Recased : Token → List Char → List Char → Prop
  | .keyword .openLoop, w, w' => w'.map Char.toUpper = w.map Char.toUpper
  | .keyword .closeLoop, w, w' => w'.map Char.toUpper = w.map Char.toUpper
  | _, w, w' => w' = w

/-- The text is another layout of what the lexer is about to read.  Each token is read from
`lexeme`, which `gap` stands in front of, and is written as `lexeme'` behind `gap'`; outside of
tags there is no `gap'`. -/
inductive Relaid : Lexer → List Char → Prop where
  | done {lexer last : Lexer} {position : Position} {gap gap' : List Char}
      (h : lexer.next = (.ok ⟨.endOfInput, position⟩, last))
      (hgap : Reads lexer.cursor gap lexer.start) (hspace : Respaced gap gap')
      (htext : lexer.mode = .text → gap' = []) : Relaid lexer gap'
  | token {lexer rest : Lexer} {token : Located Token} (gap gap' lexeme lexeme' more : List Char)
      (h : lexer.next = (.ok token, rest)) (hend : token.value ≠ .endOfInput)
      (hgap : Reads lexer.cursor gap lexer.start) (hspace : Respaced gap gap')
      (htext : lexer.mode = .text → gap' = [])
      (hlexeme : Reads lexer.start lexeme rest.cursor) (hcase : Recased token.value lexeme lexeme')
      (hmore : Relaid rest more) : Relaid lexer (gap' ++ (lexeme' ++ more))

theorem Recased.refl (token : Token) (w : List Char) : Recased token w w := by
  unfold Recased
  split <;> rfl

theorem Recased.eq_of_not_keyword {token : Token} {w w' : List Char} (h : Recased token w w')
    (htoken : ∀ keyword, token ≠ .keyword keyword) : w' = w := by
  cases token with
  | keyword keyword => exact absurd rfl (htoken keyword)
  | _ => exact h

namespace Relaid

variable {lexer next : Lexer} {c : Cursor} {token : Located Token}
  {input rest start lexeme : List Char}

/-- What is written where the document has a given token. -/
theorem of_next (h : Relaid lexer input) (hnext : lexer.next = (.ok token, next))
    (hend : token.value ≠ .endOfInput) (hlexeme : lexer.start.rest = lexeme ++ next.cursor.rest) :
    ∃ gap lexeme' more, input = gap ++ (lexeme' ++ more) ∧
      (∀ ch ∈ gap, Character.isWhiteSpace ch = true) ∧ (lexer.mode = .text → gap = []) ∧
      Recased token.value lexeme lexeme' ∧ Relaid next more := by
  cases h with
  | done h =>
    obtain ⟨htoken, -⟩ := Prod.mk.inj (hnext.symm.trans h)
    exact absurd (congrArg Located.value (Except.ok.inj htoken)) hend
  | token _ _ _ _ _ h _ _ hspace htext hread hcase hmore =>
    obtain ⟨htoken, rfl⟩ := Prod.mk.inj (hnext.symm.trans h)
    obtain rfl := Except.ok.inj htoken
    obtain rfl := List.append_cancel_right (hlexeme.symm.trans hread.rest_eq)
    exact ⟨_, _, _, rfl, hspace.isWhiteSpace, htext, hcase, hmore⟩

/-- The same, for a token that is not a keyword, in a tag. -/
theorem of_next_tag (h : Relaid lexer input) (hnext : lexer.next = (.ok token, next))
    (hend : token.value ≠ .endOfInput) (hkeyword : ∀ keyword, token.value ≠ .keyword keyword)
    (hlexeme : lexer.start.rest = lexeme ++ next.cursor.rest) :
    ∃ more, Blanks input (lexeme ++ more) ∧ Relaid next more := by
  obtain ⟨gap, _, more, rfl, hgap, -, hcase, hmore⟩ := h.of_next hnext hend hlexeme
  obtain rfl := hcase.eq_of_not_keyword hkeyword
  exact ⟨more, ⟨gap, hgap, rfl⟩, hmore⟩

/-- The same, for a token outside of tags. -/
theorem of_next_text (h : Relaid ⟨c, .text⟩ input)
    (hnext : Lexer.next ⟨c, .text⟩ = (.ok token, next)) (hend : token.value ≠ .endOfInput)
    (hkeyword : ∀ keyword, token.value ≠ .keyword keyword)
    (hlexeme : c.rest = lexeme ++ next.cursor.rest) :
    ∃ more, input = lexeme ++ more ∧ Relaid next more := by
  obtain ⟨gap, _, more, rfl, -, htext, hcase, hmore⟩ := h.of_next hnext hend hlexeme
  obtain rfl := hcase.eq_of_not_keyword hkeyword
  obtain rfl := htext rfl
  exact ⟨more, rfl, hmore⟩

/-! ## In a tag -/

/-- **In a tag, another layout ends what stands in front of it** just as the document does. -/
theorem endsAlike (h : Relaid ⟨c, .tag⟩ input) : EndsAlike c.rest input := by
  cases h with
  | done _ _ hspace =>
    exact .of_isWhiteSpace fun ch hch => hspace.isWhiteSpace ch (List.mem_of_mem_head? hch)
  | @token _ next token gap gap' lexeme lexeme' more h hend hgap hspace _ hlexeme hcase _ =>
    cases gap' with
    | cons ch gap' =>
      refine .of_isWhiteSpace fun x hx => ?_
      obtain rfl := Option.some.inj hx
      exact hspace.isWhiteSpace _ List.mem_cons_self
    | nil =>
      -- nothing was in front of the token, and the token is not a keyword
      obtain rfl := hspace.eq_nil rfl
      have hturn := Lexer.turn_next ⟨c, .tag⟩
      obtain rfl := hcase.eq_of_not_keyword fun keyword htoken => by
        have hanswer : Lexer.answer (Lexer.next ⟨c, .tag⟩) = .ok (.keyword keyword) := by
          rw [h, Lexer.answer, ← htoken]
          rfl
        exact absurd (hturn.mode_of_keyword hanswer) (by simp)
      obtain ⟨_, hread, hne⟩ := Lexer.exists_reads_start ⟨c, .tag⟩
      rw [h] at hread hne
      obtain rfl := hlexeme.eq_of_eq hread
      have hcons := (hne token rfl).2 hend
      refine .of_head?_eq ?_
      have hc : c.rest = lexeme' ++ next.cursor.rest := hgap.rest_eq.trans hlexeme.rest_eq
      rw [hc, List.nil_append, List.head?_append_of_ne_nil _ hcons,
        List.head?_append_of_ne_nil _ hcons]

/-- The elements of a tag, up to the delimiter that closes it. -/
theorem listing {elements : List Element} (hlisting : Element.Listing start elements rest)
    (h : Relaid ⟨c, .tag⟩ input) (hc : c.rest = start) :
    ∃ d rest', d.rest = rest ∧ Element.Listing input elements rest' ∧
      Relaid ⟨d, .text⟩ rest' := by
  -- the induction is on the elements; the lexer moves on by one call with each of them
  induction hlisting generalizing c input with
  | @close start rest hblanks =>
    rw [← hc] at hblanks
    have hrest := Cursor.skipWhiteSpace_rest_of_blanks hblanks (by
      rw [tagClose, List.cons_append, stops_cons]
      decide)
    have hclose := Cursor.eat?_of_rest tagClose hrest
    have hnext : Lexer.next ⟨c, .tag⟩ = (.ok ⟨.tagClose, c.skipWhiteSpace.position⟩,
        ⟨⟨rest, c.skipWhiteSpace.position.after tagClose⟩, .text⟩) := by
      simp only [Lexer.next, Lexer.tagToken, hclose]
    obtain ⟨more, hinput, hmore⟩ := h.of_next_tag hnext (by simp) (by simp) hrest
    exact ⟨_, more, rfl, .close hinput, hmore⟩
  | @cons input₀ start after rest element elements hblanks helement _ ih =>
    obtain ⟨ch, tail, hstart, hwhite, hdollar⟩ := helement.exists_cons
    rw [← hc] at hblanks
    have hrest := Cursor.skipWhiteSpace_rest_of_blanks hblanks (by
      rw [hstart, stops_cons]
      exact hwhite)
    have hcons := hrest.trans hstart
    obtain ⟨w, hw, hlexeme⟩ := helement.exists_lexeme
    rw [← hrest] at helement
    obtain ⟨d, hread, hd⟩ := Element.read_of_spelling hcons helement
    have hnext : Lexer.next ⟨c, .tag⟩ =
        (.ok ⟨.element element, c.skipWhiteSpace.position⟩, ⟨d, .tag⟩) := by
      rw [Lexer.next, Lexer.tagToken_of_rest hcons hdollar, hread]
      rfl
    have hsplit : c.skipWhiteSpace.rest = w ++ d.rest := by rw [hrest, hw, hd]
    obtain ⟨more, hinput, hmore⟩ := h.of_next_tag hnext (by simp) (by simp) hsplit
    obtain ⟨e, rest', he, hlisting, hrelaid⟩ := ih hmore hd
    have hends := hmore.endsAlike
    rw [hd] at hends
    exact ⟨e, rest', he, .cons hinput (hlexeme more hends) hlisting, hrelaid⟩

/-- A keyword that is a word is a word in another case, with other white space in front. -/
theorem keywordSpelling {word : List Char} {d : Cursor} {keyword : Keyword}
    {position : Position} (h : Relaid ⟨c, .tagStart⟩ input)
    (hword : KeywordSpelling word c.rest d.rest) (hne : word ≠ [])
    (hletter : ∀ x ∈ word, Character.isAlphabetic x = true)
    (hnext : Lexer.next ⟨c, .tagStart⟩ = (.ok ⟨.keyword keyword, position⟩, ⟨d, .tag⟩))
    (hcase : ∀ w w', Recased (.keyword keyword) w w' → w'.map Char.toUpper = w.map Char.toUpper) :
    ∃ more, KeywordSpelling word input more ∧ Relaid ⟨d, .tag⟩ more := by
  obtain ⟨w, hblanks, hupper, hstops⟩ := hword
  obtain ⟨first, tail, hw, halpha, -⟩ := Keyword.exists_cons_of_toUpper hupper hne hletter
  have hrest := Cursor.skipWhiteSpace_rest_of_blanks hblanks (by
    rw [hw, List.cons_append, stops_cons]
    exact Character.isWhiteSpace_eq_false_of_isWordChar
      (Character.isWordChar_of_isAlphabetic halpha))
  obtain ⟨gap, w', more, rfl, hgap, -, hrecased, hmore⟩ :=
    h.of_next hnext (by simp) hrest
  exact ⟨more, ⟨w', ⟨gap, hgap, rfl⟩, (hcase w w' hrecased).trans hupper,
    hmore.endsAlike.stops_isWordChar hstops⟩, hmore⟩

/-- The keyword of a tag. -/
theorem keyword {keyword : Keyword} (h : Relaid ⟨c, .tagStart⟩ input)
    (hkeyword : keyword.Spelling c.rest rest) :
    ∃ d more, d.rest = rest ∧ keyword.Spelling input more ∧ Relaid ⟨d, .tag⟩ more := by
  obtain ⟨d, hread, rfl⟩ := Keyword.read_of_spelling hkeyword
  have hnext : Lexer.next ⟨c, .tagStart⟩ =
      (.ok ⟨.keyword keyword, c.skipWhiteSpace.position⟩, ⟨d, .tag⟩) :=
    Assembly.startToken_of_readKeyword? hread
  cases keyword with
  | echo =>
    have hrest : c.skipWhiteSpace.rest = ['='] ++ d.rest :=
      Cursor.skipWhiteSpace_rest_of_blanks hkeyword (by
        rw [List.singleton_append, stops_cons]
        decide)
    obtain ⟨gap, _, more, rfl, hgap, -, rfl, hmore⟩ := h.of_next hnext (by simp) hrest
    exact ⟨d, more, rfl, ⟨gap, hgap, rfl⟩, hmore⟩
  | openLoop =>
    obtain ⟨more, hspell, hmore⟩ := h.keywordSpelling hkeyword (by decide)
      (fun _ => Keyword.isAlphabetic_of_mem_for) hnext fun _ _ hcase => hcase
    exact ⟨d, more, rfl, hspell, hmore⟩
  | closeLoop =>
    obtain ⟨more, hspell, hmore⟩ := h.keywordSpelling hkeyword (by decide)
      (fun _ => Keyword.isAlphabetic_of_mem_end) hnext fun _ _ hcase => hcase
    exact ⟨d, more, rfl, hspell, hmore⟩

/-! ## Items -/

/-- Where a tag opens, it opens in every layout. -/
theorem tagOpen (h : Relaid ⟨c, .text⟩ input) (hc : c.rest = TagTemplate.tagOpen ++ rest) :
    ∃ d more, d.rest = rest ∧ input = TagTemplate.tagOpen ++ more ∧
      Relaid ⟨d, .tagStart⟩ more := by
  have hopen := Cursor.eat?_of_rest TagTemplate.tagOpen hc
  have hnext : Lexer.next ⟨c, .text⟩ = (.ok ⟨.tagOpen, c.position⟩,
      ⟨⟨rest, c.position.after TagTemplate.tagOpen⟩, .tagStart⟩) := by
    simp only [Lexer.next, Lexer.nextInText, hopen]
  obtain ⟨more, rfl, hmore⟩ := h.of_next_text hnext (by simp) (by simp) hc
  exact ⟨_, more, rfl, rfl, hmore⟩

/-- Where the document ends, every layout ends. -/
theorem eq_nil (h : Relaid ⟨c, .text⟩ input) (hc : c.rest = []) : input = [] := by
  have hopen : c.eat? TagTemplate.tagOpen = none := by
    rw [Cursor.eat?_eq_none_iff, hc]
    simp [TagTemplate.tagOpen]
  have hnext : Lexer.next ⟨c, .text⟩ = (.ok ⟨.endOfInput, c.position⟩, ⟨c, .text⟩) := by
    simp [Lexer.next, Lexer.nextInText, hopen, Cursor.atEnd, hc]
  cases h with
  | done _ _ _ htext => exact htext rfl
  | token _ _ _ _ _ h hend =>
    obtain ⟨htoken, -⟩ := Prod.mk.inj (hnext.symm.trans h)
    exact absurd (congrArg Located.value (Except.ok.inj htoken)).symm hend

/-- A text ends where it ended. -/
theorem text {content : List Char} (h : Relaid ⟨c, .text⟩ input)
    (htext : FreeText.Spelling c.rest content rest) (hne : content ≠ []) :
    ∃ d more, d.rest = rest ∧ FreeText.Spelling input content more ∧ Relaid ⟨d, .text⟩ more := by
  obtain ⟨hopen, hcons⟩ := Item.not_tagOpen_prefix_of_spelling htext hne
  obtain ⟨w, hw, hlexeme⟩ := htext.exists_lexeme
  have hlast := Item.end_of_spelling htext
  obtain ⟨d, hscan, rfl⟩ := FreeText.scan_of_spelling htext
  have hnext : Lexer.next ⟨c, .text⟩ =
      (.ok ⟨.text (String.ofList content), c.position⟩, ⟨d, .text⟩) := by
    have heat : c.eat? TagTemplate.tagOpen = none := Cursor.eat?_eq_none_iff.mpr hopen
    simp [Lexer.next, Lexer.nextInText, heat, Cursor.atEnd, hcons, hscan, Except.map]
  obtain ⟨more, rfl, hmore⟩ := h.of_next_text hnext (by simp) (by simp) hw
  have hend : more = [] ∨ TagTemplate.tagOpen <+: more := by
    rcases hlast with hnil | ⟨tail, htail⟩
    · exact .inl (hmore.eq_nil hnil)
    · obtain ⟨_, tail', -, rfl, -⟩ := hmore.tagOpen htail.symm
      exact .inr (List.prefix_append _ _)
  exact ⟨d, more, rfl, hlexeme.append fun _ => hend, hmore⟩

/-- A whole tag, given by its keyword and its elements. -/
theorem tag (k : Keyword) {elements : List Element} {item : Item} (h : Relaid ⟨c, .text⟩ input)
    {tail : List Char} (hc : c.rest = TagTemplate.tagOpen ++ tail)
    (hkeyword : k.Spelling tail start) (hall : Element.Listing start elements rest)
    (hmakes : k.Makes elements item) :
    ∃ d more, d.rest = rest ∧ Item.Spelling input item more ∧ Relaid ⟨d, .text⟩ more := by
  obtain ⟨d, input', rfl, rfl, hstart⟩ := h.tagOpen hc
  obtain ⟨e, start', rfl, hkeyword', htag⟩ := hstart.keyword hkeyword
  obtain ⟨f, more, hf, hall', hmore⟩ := listing hall htag rfl
  exact ⟨f, more, hf, Item.spelling_tag hkeyword' hall' hmakes, hmore⟩

/-- **An item is the same in every layout.** -/
theorem item {item : Item} (h : Relaid ⟨c, .text⟩ input)
    (hitem : Item.Spelling c.rest item rest) :
    ∃ d more, d.rest = rest ∧ Item.Spelling input item more ∧ Relaid ⟨d, .text⟩ more := by
  generalize hc : c.rest = front at hitem
  cases hitem with
  | text htext hne =>
    rw [← hc] at htext
    obtain ⟨d, more, hd, hspell, hmore⟩ := h.text htext hne
    exact ⟨d, more, hd, .text hspell hne, hmore⟩
  | echo hsign hall => exact h.tag .echo hc hsign hall rfl
  | openLoop hword hall hheader => exact h.tag .openLoop hc hword hall ⟨_, hheader, rfl, rfl⟩
  | closeLoop hword hall => exact h.tag .closeLoop hc hword hall ⟨rfl, rfl⟩

/-- **The items of a document are those of every layout of it.** -/
theorem spells {items : List Item} (hspells : Item.Spells start items)
    (h : Relaid ⟨c, .text⟩ input) (hc : c.rest = start) : Item.Spells input items := by
  induction hspells generalizing c input with
  | nil =>
    obtain rfl := h.eq_nil hc
    exact .nil
  | cons hitem _ ih =>
    rw [← hc] at hitem
    obtain ⟨d, more, hd, hspell, hmore⟩ := h.item hitem
    exact .cons hspell (ih hmore hd)

/-- **What is read is a layout of itself.** -/
theorem of_ends {limit calls : Nat} {a : Assembly} {last : Lexer} {result : Except Error Node}
    {tree : Node} (h : Assembly.Ends limit lexer a calls last result) (hok : result = .ok tree) :
    Relaid lexer lexer.cursor.rest := by
  induction h with
  | error => exact absurd hok (by simp)
  | @finished lexer last a document h =>
    obtain ⟨token, hnext, haccept⟩ := Assembly.exists_token_of_step h
    obtain ⟨gap, hgap, hwhite, htext⟩ := Lexer.exists_blanks_start lexer
    obtain ⟨value, position⟩ := token
    obtain rfl : value = .endOfInput := Assembly.eq_endOfInput_of_finished haccept
    have hrest := hgap.rest_eq
    rw [Lexer.start_rest_of_end (by rw [hnext]), List.append_nil] at hrest
    rw [hrest]
    exact .done hnext hgap ⟨hwhite, id⟩ htext
  | @unfinished lexer rest last a b calls result h _ ih =>
    obtain ⟨token, hnext, haccept⟩ := Assembly.exists_token_of_step h
    obtain ⟨gap, hgap, hwhite, htext⟩ := Lexer.exists_blanks_start lexer
    obtain ⟨lexeme, hlexeme, -⟩ := Lexer.exists_reads_start lexer
    rw [hnext] at hlexeme
    rw [hgap.rest_eq, hlexeme.rest_eq]
    exact .token gap gap lexeme lexeme _ hnext (Assembly.ne_endOfInput_of_unfinished haccept) hgap
      ⟨hwhite, id⟩ htext hlexeme (.refl _ _) (ih hok)

end Relaid

/-! ## Documents -/

/-- Every document that is read is a layout of itself. -/
theorem relaid_of_parse {document : String} {limit : Nat} {tree : Node}
    (hparse : parse document ⟨limit⟩ = .ok tree) :
    Relaid (.ofString document) document.toList := by
  obtain ⟨calls, last, hends, -⟩ := exists_ends_parse document limit
  exact Relaid.of_ends hends hparse

/-- **The layout of tags does not matter.**  A document that is read is read as the same tree,
and under the same limit, in every other layout. -/
theorem parse_relaid {document document' : String} {limit : Nat} {tree : Node}
    (h : Relaid (.ofString document) document'.toList)
    (hparse : parse document ⟨limit⟩ = .ok tree) : parse document' ⟨limit⟩ = .ok tree := by
  obtain ⟨hderives, hlimit⟩ := derives_of_parse hparse
  obtain ⟨children, rfl, hfree, hspells⟩ := derives_iff_spells.mp hderives
  have hderives' : Derives document' (.document children) :=
    derives_iff_spells.mpr ⟨children, rfl, hfree, Relaid.spells hspells h rfl⟩
  exact parse_of_derives hderives' hlimit

/-- A loop written close, and the same loop with white space put between its tokens, some of it
changed, and its keywords in another case. -/
theorem parse_relaid_of_loop :
    Relaid (.ofString "\x7b$for i 3-1$\x7d\x7b$END$\x7d")
        "\x7b$ FOR i\t3 -1 $\x7d\x7b$\nend\n$\x7d".toList ∧
      parse "\x7b$for i 3-1$\x7d\x7b$END$\x7d" ⟨1⟩ =
        .ok (.document [.forLoop ⟨.var "i", .integer 3, .integer (-1), none⟩ []]) ∧
      parse "\x7b$ FOR i\t3 -1 $\x7d\x7b$\nend\n$\x7d" ⟨1⟩ =
        .ok (.document [.forLoop ⟨.var "i", .integer 3, .integer (-1), none⟩ []]) := by
  have hspaced : ∀ gap gap' : String, gap'.toList.all Character.isWhiteSpace = true →
      (gap'.toList = [] → gap.toList = []) → Respaced gap.toList gap'.toList :=
    fun gap gap' hwhite hnil => ⟨List.all_eq_true.mp hwhite, hnil⟩
  have hrelaid : Relaid (.ofString "\x7b$for i 3-1$\x7d\x7b$END$\x7d")
      "\x7b$ FOR i\t3 -1 $\x7d\x7b$\nend\n$\x7d".toList := by
    refine .token "".toList "".toList "\x7b$".toList "\x7b$".toList _ rfl (by decide) ⟨rfl, rfl⟩
      (hspaced _ _ rfl (by decide)) (by decide) ⟨rfl, rfl⟩ rfl ?_
    refine .token "".toList " ".toList "for".toList "FOR".toList _ rfl (by decide) ⟨rfl, rfl⟩
      (hspaced _ _ rfl (by decide)) (by decide) ⟨rfl, rfl⟩ rfl ?_
    refine .token " ".toList " ".toList "i".toList "i".toList _ rfl (by decide) ⟨rfl, rfl⟩
      (hspaced _ _ rfl (by decide)) (by decide) ⟨rfl, rfl⟩ rfl ?_
    refine .token " ".toList "\t".toList "3".toList "3".toList _ rfl (by decide) ⟨rfl, rfl⟩
      (hspaced _ _ rfl (by decide)) (by decide) ⟨rfl, rfl⟩ rfl ?_
    refine .token "".toList " ".toList "-1".toList "-1".toList _ rfl (by decide) ⟨rfl, rfl⟩
      (hspaced _ _ rfl (by decide)) (by decide) ⟨rfl, rfl⟩ rfl ?_
    refine .token "".toList " ".toList "$\x7d".toList "$\x7d".toList _ rfl (by decide) ⟨rfl, rfl⟩
      (hspaced _ _ rfl (by decide)) (by decide) ⟨rfl, rfl⟩ rfl ?_
    refine .token "".toList "".toList "\x7b$".toList "\x7b$".toList _ rfl (by decide) ⟨rfl, rfl⟩
      (hspaced _ _ rfl (by decide)) (by decide) ⟨rfl, rfl⟩ rfl ?_
    refine .token "".toList "\n".toList "END".toList "end".toList _ rfl (by decide) ⟨rfl, rfl⟩
      (hspaced _ _ rfl (by decide)) (by decide) ⟨rfl, rfl⟩ rfl ?_
    refine .token "".toList "\n".toList "$\x7d".toList "$\x7d".toList _ rfl (by decide) ⟨rfl, rfl⟩
      (hspaced _ _ rfl (by decide)) (by decide) ⟨rfl, rfl⟩ rfl ?_
    exact .done rfl (.refl _) (hspaced "" "" rfl (by decide)) (by decide)
  have hends : Assembly.Ends 1 (.ofString "\x7b$for i 3-1$\x7d\x7b$END$\x7d") .empty 10
      (Lexer.after "\x7b$for i 3-1$\x7d\x7b$END$\x7d" 10)
      (.ok (.document [.forLoop ⟨.var "i", .integer 3, .integer (-1), none⟩ []])) :=
    .unfinished rfl <| .unfinished rfl <| .unfinished rfl <| .unfinished rfl <|
      .unfinished rfl <| .unfinished rfl <| .unfinished rfl <| .unfinished rfl <|
      .unfinished rfl <| .finished rfl
  have hparse : parse "\x7b$for i 3-1$\x7d\x7b$END$\x7d" ⟨1⟩ = .ok _ := hends.run_eq
  exact ⟨hrelaid, hparse, parse_relaid hrelaid hparse⟩

end TagTemplate
