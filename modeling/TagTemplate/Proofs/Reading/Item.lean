import TagTemplate.Proofs.Outline
import TagTemplate.Proofs.Reading.Element

/-!
# The reader of items

An item is read exactly where the grammar has one: `Item.spelling_of_next` and
`Item.next_of_spelling`.  For a tag this is put together from its three parts, each of
which is read exactly where it is spelled.

* `Element.listing_of_readAll`, `Element.readAll_of_listing`: the elements up to and
  including the closing delimiter.
* `Keyword.spelling_of_read`, `Keyword.read_of_spelling`: the keyword or the sign in
  front.
* `Item.ofTag_eq_ok_iff`: what a keyword makes of the elements after it.

So an item at the front of a text, and what stands after it, are never in doubt:
`Item.Spelling.unique`.
-/

namespace TagTemplate

variable {c d : Cursor} {opening : Position} {input rest : List Char}

/-! ## Elements -/

namespace Element

theorem tagClose_not_prefix_of_spelling {element : Element} {start after : List Char}
    (h : Spelling start element after) : ¬ tagClose <+: start := by
  obtain ⟨ch, tail, rfl, -, hdollar⟩ := h.exists_cons
  intro hfront
  exact hdollar (List.cons_prefix_cons.mp hfront).1.symm

/-- The elements that are read are spelled by the characters read. -/
theorem listing_of_readAll {located : List (Located Element)}
    (h : readAll opening c = .ok (located, d)) :
    Listing c.rest (located.map Located.value) d.rest := by
  fun_induction readAll opening c generalizing located d with
  | case1 c e hclose =>
    obtain ⟨rfl, rfl⟩ := Prod.mk.inj (Except.ok.inj h)
    refine .close ?_
    rw [← Cursor.rest_of_eat? hclose]
    exact Cursor.blanks_skipWhiteSpace c
  | case2 => exact absurd h (by simp)
  | case3 => exact absurd h (by simp)
  | case4 c _ ch tail hc element e hread _ ih =>
    obtain ⟨⟨more, f⟩, hmore, heq⟩ := map_eq_ok_iff.mp h
    obtain ⟨rfl, rfl⟩ := Prod.mk.inj heq
    exact .cons (Cursor.blanks_skipWhiteSpace c) (spelling_of_read hc hread) (ih hmore)

theorem readAll_of_close {e : Cursor} (h : c.skipWhiteSpace.eat? tagClose = some e) :
    readAll opening c = .ok ([], e) := by
  rw [readAll]
  split <;> simp_all

theorem readAll_of_read {e : Cursor} {ch : Char} {tail : List Char} {element : Element}
    (hclose : c.skipWhiteSpace.eat? tagClose = none) (hc : c.skipWhiteSpace.rest = ch :: tail)
    (hread : read ch c.skipWhiteSpace = (.ok element, e)) :
    readAll opening c = (readAll opening e).map fun r =>
      (⟨element, c.skipWhiteSpace.position⟩ :: r.1, r.2) := by
  rw [readAll]
  split
  · simp_all
  · split
    · simp_all
    · rename_i hcons
      obtain ⟨rfl, rfl⟩ := List.cons.inj (hc.symm.trans hcons)
      split <;> simp_all

/-- Elements that are spelled at the cursor are read. -/
theorem readAll_of_listing {elements : List Element} (h : Listing input elements rest)
    (opening : Position) {c : Cursor} (hc : c.rest = input) :
    ∃ located d, readAll opening c = .ok (located, d) ∧
      located.map Located.value = elements ∧ d.rest = rest := by
  induction h generalizing c with
  | @close input rest hblanks =>
    rw [← hc] at hblanks
    have hrest : c.skipWhiteSpace.rest = tagClose ++ rest :=
      Cursor.skipWhiteSpace_rest_of_blanks hblanks
        (by rw [tagClose, List.cons_append, stops_cons]; decide)
    exact ⟨[], _, readAll_of_close (Cursor.eat?_of_rest tagClose hrest), rfl, rfl⟩
  | @cons input start after rest element elements hblanks helement _ ih =>
    obtain ⟨ch, tail, hstart, hwhite, -⟩ := helement.exists_cons
    have hclose := tagClose_not_prefix_of_spelling helement
    rw [← hc] at hblanks
    have hrest : c.skipWhiteSpace.rest = start :=
      Cursor.skipWhiteSpace_rest_of_blanks hblanks (by rw [hstart, stops_cons]; exact hwhite)
    rw [← hrest] at helement hclose
    rw [← hrest] at hstart
    obtain ⟨e, hread, hafter⟩ := read_of_spelling hstart helement
    obtain ⟨located, d, hall, hvalues, hend⟩ := ih hafter
    refine ⟨⟨element, c.skipWhiteSpace.position⟩ :: located, d, ?_, by simp [hvalues], hend⟩
    rw [readAll_of_read (Cursor.eat?_eq_none_iff.mpr hclose) hstart hread, hall]
    rfl

end Element

/-! ## Keywords -/

namespace Keyword

/-- The front of the input is white space and the sign or the word of a keyword. -/
def Spelling : Keyword → List Char → List Char → Prop
  | echo, input, rest => Blanks input ('=' :: rest)
  | openLoop, input, rest => KeywordSpelling ['F', 'O', 'R'] input rest
  | closeLoop, input, rest => KeywordSpelling ['E', 'N', 'D'] input rest

/-- A word is a keyword whatever the case of its letters. -/
theorem ofWord?_eq_some_iff {word : String} {keyword : Keyword} :
    ofWord? word = some keyword ↔
      (keyword = openLoop ∧ word.toList.map Char.toUpper = ['F', 'O', 'R']) ∨
      (keyword = closeLoop ∧ word.toList.map Char.toUpper = ['E', 'N', 'D']) := by
  simp only [ofWord?]
  split
  · rename_i hfor
    simp [hfor, eq_comm]
  · rename_i hfor
    split
    · rename_i hend
      simp [hend, eq_comm]
    · rename_i hend
      simp [hfor, hend]

/-- A word whose letters have capitals among the letters starts with a letter, and has
word characters only. -/
theorem exists_cons_of_toUpper {w word : List Char} (h : w.map Char.toUpper = word)
    (hne : word ≠ []) (hword : ∀ x ∈ word, Character.isAlphabetic x = true) :
    ∃ first more, w = first :: more ∧ Character.isAlphabetic first = true ∧
      ∀ x ∈ w, Character.isWordChar x = true := by
  have hletter : ∀ x ∈ w, Character.isAlphabetic x = true := by
    intro x hx
    have hmem : x.toUpper ∈ word := by
      rw [← h]
      exact List.mem_map_of_mem hx
    exact Character.isAlphabetic_of_toUpper_eq rfl (hword _ hmem)
  cases w with
  | nil => exact absurd h.symm hne
  | cons first more =>
    exact ⟨first, more, rfl, hletter first List.mem_cons_self,
      fun x hx => Character.isWordChar_of_isAlphabetic (hletter x hx)⟩

theorem blanks_readWord (c : Cursor) :
    Blanks c.rest ((Element.readWord c.skipWhiteSpace).1.toList ++
      (Element.readWord c.skipWhiteSpace).2.rest) := by
  have hword : c.skipWhiteSpace.rest = (Element.readWord c.skipWhiteSpace).1.toList ++
      (Element.readWord c.skipWhiteSpace).2.rest :=
    Cursor.rest_of_takeWhile Character.isWordChar c.skipWhiteSpace
  rw [← hword]
  exact Cursor.blanks_skipWhiteSpace c

/-- A keyword that is read is spelled by the characters read. -/
theorem spelling_of_read {keyword : Keyword}
    (h : Item.readKeyword? c.skipWhiteSpace = some (keyword, d)) :
    keyword.Spelling c.rest d.rest := by
  unfold Item.readKeyword? at h
  split at h
  · rename_i e he
    obtain ⟨rfl, rfl⟩ := Prod.mk.inj (Option.some.inj h)
    show Blanks c.rest (['='] ++ e.rest)
    rw [← Cursor.rest_of_eat? he]
    exact Cursor.blanks_skipWhiteSpace c
  · split at h
    · obtain ⟨k, hk, heq⟩ := Option.map_eq_some_iff.mp h
      obtain ⟨rfl, rfl⟩ := Prod.mk.inj heq
      have hstops : Stops Character.isWordChar (Element.readWord c.skipWhiteSpace).2.rest :=
        Cursor.stops_takeWhile Character.isWordChar c.skipWhiteSpace
      rcases ofWord?_eq_some_iff.mp hk with ⟨rfl, hupper⟩ | ⟨rfl, hupper⟩
      · exact ⟨_, blanks_readWord c, hupper, hstops⟩
      · exact ⟨_, blanks_readWord c, hupper, hstops⟩
    · exact absurd h (by simp)

/-- A word that is a keyword is read as one. -/
theorem read_of_keywordSpelling {word : List Char} {keyword : Keyword}
    (h : KeywordSpelling word c.rest rest) (hne : word ≠ [])
    (hletter : ∀ x ∈ word, Character.isAlphabetic x = true)
    (hkeyword : ∀ w : List Char, w.map Char.toUpper = word →
      ofWord? (String.ofList w) = some keyword) :
    ∃ d, Item.readKeyword? c.skipWhiteSpace = some (keyword, d) ∧ d.rest = rest := by
  obtain ⟨w, hblanks, hupper, hstops⟩ := h
  obtain ⟨first, more, hw, halpha, hall⟩ := exists_cons_of_toUpper hupper hne hletter
  have hwhite : Stops Character.isWhiteSpace (w ++ rest) := by
    rw [hw, List.cons_append, stops_cons]
    exact Character.isWhiteSpace_eq_false_of_isWordChar
      (Character.isWordChar_of_isAlphabetic halpha)
  have hrest : c.skipWhiteSpace.rest = w ++ rest :=
    Cursor.skipWhiteSpace_rest_of_blanks hblanks hwhite
  obtain ⟨hname, hafter⟩ := Element.readWord_of_rest hrest hall hstops
  have hcons : c.skipWhiteSpace.rest = first :: (more ++ rest) := by
    rw [hrest, hw, List.cons_append]
  have hsign : c.skipWhiteSpace.eat? ['='] = none :=
    Cursor.eat?_eq_none_of_head_ne hcons (Element.ne_of_isAlphabetic halpha (by decide)).symm
  refine ⟨(Element.readWord c.skipWhiteSpace).2, ?_, hafter⟩
  simp only [Item.readKeyword?, hsign, Cursor.peek?_of_rest hcons, Option.any_some, halpha,
    if_true, hname, hkeyword w hupper, Option.map_some]

theorem isAlphabetic_of_mem_for {x : Char} (h : x ∈ ['F', 'O', 'R']) :
    Character.isAlphabetic x = true := by
  simp only [List.mem_cons, List.not_mem_nil, or_false] at h
  rcases h with rfl | rfl | rfl <;> decide

theorem isAlphabetic_of_mem_end {x : Char} (h : x ∈ ['E', 'N', 'D']) :
    Character.isAlphabetic x = true := by
  simp only [List.mem_cons, List.not_mem_nil, or_false] at h
  rcases h with rfl | rfl | rfl <;> decide

/-- A keyword that is spelled after the cursor is read. -/
theorem read_of_spelling {keyword : Keyword} (h : keyword.Spelling c.rest rest) :
    ∃ d, Item.readKeyword? c.skipWhiteSpace = some (keyword, d) ∧ d.rest = rest := by
  cases keyword with
  | echo =>
    have hrest : c.skipWhiteSpace.rest = ['='] ++ rest :=
      Cursor.skipWhiteSpace_rest_of_blanks h (by rw [List.singleton_append, stops_cons]; decide)
    refine ⟨⟨rest, c.skipWhiteSpace.position.after ['=']⟩, ?_, rfl⟩
    simp only [Item.readKeyword?, Cursor.eat?_of_rest ['='] hrest]
  | openLoop =>
    refine read_of_keywordSpelling h (by decide) (fun _ => isAlphabetic_of_mem_for) fun w hw => ?_
    rw [ofWord?_eq_some_iff, String.toList_ofList]
    exact .inl ⟨rfl, hw⟩
  | closeLoop =>
    refine read_of_keywordSpelling h (by decide) (fun _ => isAlphabetic_of_mem_end) fun w hw => ?_
    rw [ofWord?_eq_some_iff, String.toList_ofList]
    exact .inr ⟨rfl, hw⟩

/-- What a keyword makes of the elements after it. -/
def Makes : Keyword → List Element → Item → Prop
  | echo, elements, item => item = .echo elements
  | openLoop, elements, item =>
      ∃ header : LoopHeader, header.IsLoop ∧ elements = header.elements ∧ item = .openLoop header
  | closeLoop, elements, item => elements = [] ∧ item = .closeLoop

end Keyword

/-- The elements of a `FOR` tag make a header exactly when they are those of a loop. -/
theorem LoopHeader.ofElements_eq_ok_iff {elements : List (Located Element)}
    {header : LoopHeader} : ofElements opening elements = .ok header ↔
      header.IsLoop ∧ elements.map Located.value = header.elements := by
  constructor
  · intro h
    unfold ofElements at h
    split at h
    · exact absurd h (by simp)
    · rename_i first operands
      split at h
      · rename_i hvariable
        split at h
        · exact absurd h (by simp)
        · rename_i hfind
          have hoperand : ∀ x ∈ operands.map Located.value, x.isLoopOperand = true := by
            intro x hx
            obtain ⟨operand, hmem, rfl⟩ := List.mem_map.mp hx
            simpa using List.find?_eq_none.mp hfind operand hmem
          split at h
          · rename_i start stop hvalues
            obtain rfl := Except.ok.inj h
            rw [hvalues] at hoperand
            exact ⟨⟨hvariable, hoperand _ (by simp), hoperand _ (by simp), by simp⟩,
              by simp [elements, hvalues]⟩
          · rename_i start stop step hvalues
            obtain rfl := Except.ok.inj h
            rw [hvalues] at hoperand
            exact ⟨⟨hvariable, hoperand _ (by simp), hoperand _ (by simp),
              by simpa using hoperand step (by simp)⟩, by simp [elements, hvalues]⟩
          · exact absurd h (by simp)
      · exact absurd h (by simp)
  · rintro ⟨hloop, hvalues⟩
    obtain ⟨loopVariable, start, stop, step⟩ := header
    cases elements with
    | nil => exact absurd hvalues (by simp [elements])
    | cons first operands =>
      obtain ⟨hfirst, hrest⟩ := List.cons.inj hvalues
      simp only at hfirst hrest
      have hoperand : ∀ x ∈ operands, x.value.isLoopOperand = true := by
        intro x hx
        have hmem : x.value ∈ start :: stop :: step.toList := by
          rw [← hrest]
          exact List.mem_map_of_mem hx
        simp only [List.mem_cons, Option.mem_toList] at hmem
        rcases hmem with hx | hx | hx
        · rw [hx]
          exact hloop.isLoopOperand_start
        · rw [hx]
          exact hloop.isLoopOperand_stop
        · exact hloop.isLoopOperand_step _ hx
      have hfind : operands.find? (fun operand => !operand.value.isLoopOperand) = none :=
        List.find?_eq_none.mpr fun x hx => by simp [hoperand x hx]
      have hvariable : first.value.isVariable = true := by
        rw [hfirst]
        exact hloop.isVariable
      simp only [ofElements, hvariable, if_true, hfind, hrest]
      cases step with
      | none => simp [hfirst]
      | some step => simp [hfirst]

namespace Item

/-- A tag is accepted exactly when the keyword makes an item of its elements. -/
theorem ofTag_eq_ok_iff {keyword : Keyword} {elements : List (Located Element)} {item : Item} :
    ofTag opening keyword elements = .ok item ↔
      keyword.Makes (elements.map Located.value) item := by
  cases keyword with
  | echo =>
    show Except.ok (Item.echo _) = .ok item ↔ item = .echo _
    rw [Except.ok.injEq, eq_comm]
  | openLoop =>
    show (LoopHeader.ofElements opening elements).map .openLoop = .ok item ↔ _
    rw [map_eq_ok_iff]
    constructor
    · rintro ⟨header, hheader, rfl⟩
      obtain ⟨hloop, hvalues⟩ := LoopHeader.ofElements_eq_ok_iff.mp hheader
      exact ⟨header, hloop, hvalues, rfl⟩
    · rintro ⟨header, hloop, hvalues, rfl⟩
      exact ⟨header, LoopHeader.ofElements_eq_ok_iff.mpr ⟨hloop, hvalues⟩, rfl⟩
  | closeLoop =>
    cases elements with
    | nil => simp only [ofTag, Keyword.Makes, Except.ok.injEq, List.map_nil, true_and, eq_comm]
    | cons element elements => simp [ofTag, Keyword.Makes]

/-! ## Items -/

/-- A text is empty only where a tag opens or nothing is left. -/
theorem tagOpen_prefix_of_spelling_nil (h : FreeText.Spelling input [] rest) :
    input = [] ∨ tagOpen <+: input := by
  cases h with
  | done h => exact h

/-- A text starts with no tag. -/
theorem not_tagOpen_prefix_of_spelling {content : List Char}
    (h : FreeText.Spelling input content rest) (hne : content ≠ []) :
    ¬ tagOpen <+: input ∧ input ≠ [] := by
  cases h with
  | done h => exact absurd rfl hne
  | backslash h => exact ⟨by simp [tagOpen], by simp⟩
  | brace h => exact ⟨by simp [tagOpen], by simp⟩
  | plain hc hopen h => exact ⟨hopen, by simp⟩

/-- A tag is spelled as its keyword, its elements, and what they make together. -/
theorem spelling_tag {keyword : Keyword} {start : List Char} {elements : List Element}
    {item : Item} (hkeyword : keyword.Spelling input start)
    (hall : Element.Listing start elements rest) (hmakes : keyword.Makes elements item) :
    Spelling (tagOpen ++ input) item rest := by
  cases keyword with
  | echo =>
    obtain rfl := hmakes
    exact .echo hkeyword hall
  | openLoop =>
    obtain ⟨header, hloop, rfl, rfl⟩ := hmakes
    exact .openLoop hkeyword hall hloop
  | closeLoop =>
    obtain ⟨rfl, rfl⟩ := hmakes
    exact .closeLoop hkeyword hall

/-- The item that is read is spelled by the characters read. -/
theorem spelling_of_next {item : Located Item} (h : next c = .ok (some (item, d))) :
    Spelling c.rest item.value d.rest := by
  obtain ⟨-, ⟨e, he, htag⟩ | ⟨hopen, hne, content, hscan, hvalue⟩⟩ := next_eq_some_iff.mp h
  · obtain ⟨keyword, f, elements, hkeyword, hall, hof⟩ := readTag_eq_ok_iff.mp htag
    rw [Cursor.rest_of_eat? he]
    exact spelling_tag (Keyword.spelling_of_read hkeyword) (Element.listing_of_readAll hall)
      (ofTag_eq_ok_iff.mp hof)
  · have hspell := FreeText.spelling_of_scan hscan
    rw [hvalue, ← String.ofList_toList (s := content)]
    refine .text hspell fun hnil => ?_
    -- an empty text would mean that a tag opens here, or that nothing is left
    rw [hnil] at hspell
    rcases tagOpen_prefix_of_spelling_nil hspell with hend | htag
    · exact hne hend
    · exact Cursor.eat?_eq_none_iff.mp hopen htag

theorem next_of_tag (keyword : Keyword) {start : List Char} {elements : List Element}
    {item : Item} (hkeyword : keyword.Spelling input start)
    (hall : Element.Listing start elements rest) (hmakes : keyword.Makes elements item)
    (hc : c.rest = tagOpen ++ input) :
    ∃ d, next c = .ok (some (⟨item, c.position⟩, d)) ∧ d.rest = rest := by
  have hopen := Cursor.eat?_of_rest tagOpen hc
  obtain ⟨e, hread, hstart⟩ := Keyword.read_of_spelling
    (c := ⟨input, c.position.after tagOpen⟩) hkeyword
  obtain ⟨located, d, hlisting, rfl, hend⟩ := Element.readAll_of_listing hall c.position hstart
  refine ⟨d, next_eq_some_iff.mpr ⟨rfl, .inl ⟨_, hopen, ?_⟩⟩, hend⟩
  exact readTag_eq_ok_iff.mpr ⟨keyword, e, located, hread, hlisting, ofTag_eq_ok_iff.mpr hmakes⟩

/-- An item that is spelled at the cursor is read. -/
theorem next_of_spelling {item : Item} (h : Spelling c.rest item rest) :
    ∃ d, next c = .ok (some (⟨item, c.position⟩, d)) ∧ d.rest = rest := by
  generalize hc : c.rest = input at h
  cases h with
  | @text _ content _ h hne =>
    obtain ⟨hopen, hcons⟩ := not_tagOpen_prefix_of_spelling h hne
    rw [← hc] at h hopen hcons
    obtain ⟨d, hscan, hend⟩ := FreeText.scan_of_spelling h
    exact ⟨d, next_eq_some_iff.mpr ⟨rfl, .inr ⟨Cursor.eat?_eq_none_iff.mpr hopen, hcons, _,
      hscan, rfl⟩⟩, hend⟩
  | echo hsign h => exact next_of_tag .echo hsign h rfl hc
  | openLoop hword h hheader =>
    exact next_of_tag .openLoop hword h ⟨_, hheader, rfl, rfl⟩ hc
  | closeLoop hword h => exact next_of_tag .closeLoop hword h ⟨rfl, rfl⟩ hc

/-- **The first item of a text is determined**, and with it what stands after it. -/
theorem Spelling.unique {a b : Item} {after : List Char} (ha : Spelling input a rest)
    (hb : Spelling input b after) : a = b ∧ rest = after := by
  obtain ⟨d, hd, rfl⟩ := next_of_spelling (c := ⟨input, .start⟩) ha
  obtain ⟨e, he, rfl⟩ := next_of_spelling (c := ⟨input, .start⟩) hb
  rw [hd] at he
  simp only [Except.ok.injEq, Option.some.injEq, Prod.mk.injEq, Located.mk.injEq] at he
  exact ⟨he.1.1, congrArg Cursor.rest he.2⟩

end Item
end TagTemplate
