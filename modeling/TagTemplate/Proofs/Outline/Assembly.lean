import TagTemplate.Parse
import TagTemplate.Proofs.Outline
import TagTemplate.Proofs.Reading.Element

/-!
# Reading a document is adding the items of its outline

`Assembly.run` reads tokens and changes its place with each of them.  Between two items
its place is always the body, and from one such moment to the next it does what one
whole item asks for.  So the reading of tokens and the building of the tree come apart:
`run_eq_settle` says that the result is found by going through the outline alone.

* `run_tag`: inside a tag, the elements up to the closing delimiter are collected and
  the tag is added.
* `run_tagStart`: after an opening delimiter, one whole tag is added.
* `run_eq_settle`: from a body to the end, the items of the outline are added one by one,
  and then the fault of the outline decides, or what is left open at the end.
-/

namespace TagTemplate

namespace Assembly

/-- Adds a whole item. -/
def addItem (limit : Nat) (a : Assembly) (item : Located Item) : Except Error Assembly :=
  match item.value with
  | .text content => .ok (a.addNode (.text content))
  | .echo elements => .ok (a.addNode (.echo elements))
  | .openLoop header => a.openLoop limit item.position header
  | .closeLoop => a.closeLoop item.position

/-- Adds the items of an outline in order, and ends with its fault if there is one. -/
def settle (limit : Nat) (a : Assembly) (o : Outline) : Except Error Node :=
  match o.items.foldlM (addItem limit) a with
  | .error error => .error error
  | .ok b =>
      match o.fault with
      | some error => .error error
      | none => b.finish

variable {limit : Nat} {lexer rest : Lexer} {a b : Assembly} {token : Located Token}
  {error : Error}

/-! ## One token -/

theorem run_of_stepError (h : a.step limit lexer = .error error) :
    a.run limit lexer = .error error := by
  rw [run]
  split <;> rename_i heq <;> rw [h] at heq <;> simp_all

theorem step_of_accept (limit : Nat) (a : Assembly) (h : lexer.next = (.ok token, rest)) :
    a.step limit lexer = (a.accept limit token).map (·, rest) := by
  rw [step, h]

theorem run_of_lexError (h : lexer.next = (.error error, rest)) :
    a.run limit lexer = .error error :=
  run_of_stepError (by rw [step, h])

theorem run_of_refused (h : lexer.next = (.ok token, rest))
    (haccept : a.accept limit token = .error error) : a.run limit lexer = .error error :=
  run_of_stepError (by rw [step_of_accept limit a h, haccept]; rfl)

theorem run_of_finished {document : Node} (h : lexer.next = (.ok token, rest))
    (haccept : a.accept limit token = .ok (.finished document)) :
    a.run limit lexer = .ok document := by
  have hstep := step_of_accept limit a h
  rw [haccept] at hstep
  rw [run]
  split <;> rename_i heq <;> rw [hstep] at heq <;> simp_all [Except.map]

theorem run_of_accepted (h : lexer.next = (.ok token, rest))
    (haccept : a.accept limit token = .ok (.unfinished b)) :
    a.run limit lexer = b.run limit rest := by
  have hstep := step_of_accept limit a h
  rw [haccept] at hstep
  rw [run]
  split <;> rename_i heq <;> rw [hstep] at heq <;> simp_all [Except.map]

/-! ## One item -/

/-- A tag is judged and then added as an item. -/
theorem addTag_eq (opening : Position) (keyword : Keyword) (elements : List (Located Element)) :
    a.addTag limit opening keyword elements =
      match Item.ofTag opening keyword elements with
      | .error error => .error error
      | .ok item => a.addItem limit ⟨item, opening⟩ := by
  unfold addTag Item.ofTag
  cases keyword with
  | echo => rfl
  | openLoop => cases LoopHeader.ofElements opening elements <;> rfl
  | closeLoop => cases elements <;> rfl

/-- Only the nodes and the open loops matter to an item. -/
theorem addItem_place (place : Place) (item : Located Item) :
    addItem limit { a with place := place } item = a.addItem limit item := by
  unfold addItem
  cases item.value <;> rfl

theorem place_of_addItem {item : Located Item} (h : a.addItem limit item = .ok b) :
    b.place = .body := by
  unfold addItem at h
  split at h
  · obtain rfl := Except.ok.inj h
    rfl
  · obtain rfl := Except.ok.inj h
    rfl
  · unfold openLoop at h
    split at h
    · exact absurd h (by simp)
    · obtain rfl := Except.ok.inj h
      rfl
  · unfold closeLoop at h
    split at h
    · exact absurd h (by simp)
    · obtain rfl := Except.ok.inj h
      rfl

/-- Inside a tag, what is left of it is read to its closing delimiter, and the whole tag
is added. -/
theorem run_tag (c : Cursor) {opening : Position} {keyword : Keyword}
    {elements : List (Located Element)} (hplace : a.place = .tag opening keyword elements) :
    a.run limit ⟨c, .tag⟩ =
      match Element.readAll opening c with
      | .error error => .error error
      | .ok (more, d) =>
          match a.addTag limit opening keyword (elements.reverse ++ more) with
          | .error error => .error error
          | .ok b => b.run limit ⟨d, .text⟩ := by
  fun_induction Element.readAll opening c generalizing a elements with
  | case1 c d hclose =>
    have hnext : Lexer.next ⟨c, .tag⟩ =
        (.ok ⟨.tagClose, c.skipWhiteSpace.position⟩, ⟨d, .text⟩) := by
      simp only [Lexer.next, Lexer.tagToken, hclose]
    have haccept : a.accept limit ⟨.tagClose, c.skipWhiteSpace.position⟩ =
        (a.addTag limit opening keyword elements.reverse).map .unfinished := by
      simp only [accept, hplace]
    show a.run limit ⟨c, .tag⟩ = match a.addTag limit opening keyword (elements.reverse ++ []) with
      | .error error => .error error
      | .ok b => b.run limit ⟨d, .text⟩
    rw [List.append_nil]
    cases hadd : a.addTag limit opening keyword elements.reverse with
    | error error =>
      rw [hadd] at haccept
      exact run_of_refused hnext haccept
    | ok b =>
      rw [hadd] at haccept
      exact run_of_accepted hnext haccept
  | case2 c hclose hc =>
    have hnext : Lexer.next ⟨c, .tag⟩ =
        (.ok ⟨.endOfInput, c.skipWhiteSpace.position⟩, ⟨c.skipWhiteSpace, .tag⟩) := by
      simp only [Lexer.next, Lexer.tagToken, hclose, Cursor.peek?, hc, List.head?_nil]
    exact run_of_refused hnext (by simp only [accept, hplace])
  | case3 c hclose ch tail hc error d hread =>
    have hnext : Lexer.next ⟨c, .tag⟩ = (.error error, ⟨d, .tag⟩) := by
      simp only [Lexer.next, Lexer.tagToken, hclose, Cursor.peek?, hc, List.head?_cons, hread,
        Except.map]
    exact run_of_lexError hnext
  | case4 c hclose ch tail hc element d hread _ ih =>
    have hnext : Lexer.next ⟨c, .tag⟩ =
        (.ok ⟨.element element, c.skipWhiteSpace.position⟩, ⟨d, .tag⟩) := by
      simp only [Lexer.next, Lexer.tagToken, hclose, Cursor.peek?, hc, List.head?_cons, hread,
        Except.map]
    let b : Assembly :=
      { a with
        place := .tag opening keyword (⟨element, c.skipWhiteSpace.position⟩ :: elements) }
    have haccept : a.accept limit ⟨.element element, c.skipWhiteSpace.position⟩ =
        .ok (.unfinished b) := by
      simp only [accept, hplace, b]
    have hadd : ∀ all, b.addTag limit opening keyword all = a.addTag limit opening keyword all := by
      intro all
      rw [addTag_eq, addTag_eq]
      simp only [b, addItem_place]
    rw [run_of_accepted hnext haccept, ih (a := b) rfl]
    cases Element.readAll opening d with
    | error error => rfl
    | ok r => simp only [Except.map, hadd, List.reverse_cons, List.append_assoc,
        List.singleton_append]

theorem startToken_of_readKeyword? {c d : Cursor} {keyword : Keyword}
    (h : Item.readKeyword? c = some (keyword, d)) :
    Lexer.startToken c = (.ok ⟨.keyword keyword, c.position⟩, ⟨d, .tag⟩) := by
  unfold Item.readKeyword? at h
  unfold Lexer.startToken
  cases hsign : c.eat? ['='] with
  | some e =>
    simp only [hsign] at h
    obtain ⟨rfl, rfl⟩ := Prod.mk.inj (Option.some.inj h)
    rfl
  | none =>
    simp only [hsign] at h
    cases halpha : c.peek?.any Character.isAlphabetic with
    | true =>
      simp only [halpha, if_true] at h
      obtain ⟨k, hk, heq⟩ := Option.map_eq_some_iff.mp h
      obtain ⟨rfl, rfl⟩ := Prod.mk.inj heq
      simp only [if_true, Lexer.firstToken, hk]
    | false =>
      simp only [halpha, Bool.false_eq_true, if_false] at h
      exact absurd h (by simp)

/-- The error of a tag without a keyword is the one that its first token gives. -/
theorem run_of_readKeyword?_eq_none {c : Cursor} {opening : Position}
    (hplace : a.place = .tagStart opening)
    (h : Item.readKeyword? c.skipWhiteSpace = none) :
    a.run limit ⟨c, .tagStart⟩ = .error (Item.keywordError opening c.skipWhiteSpace) := by
  have hnext : Lexer.next ⟨c, .tagStart⟩ = Lexer.startToken c.skipWhiteSpace := rfl
  generalize c.skipWhiteSpace = d at h hnext
  unfold Item.readKeyword? at h
  unfold Lexer.startToken at hnext
  cases heq : d.eat? ['='] with
  | some e => simp [heq] at h
  | none =>
    simp only [heq] at h hnext
    cases halpha : d.peek?.any Character.isAlphabetic with
    | true =>
      -- a word that is no keyword is a variable, and a tag does not start with one
      obtain ⟨ch, hch, hletter⟩ := (Option.any_eq_true _ _).mp halpha
      obtain ⟨tail, htail⟩ := List.head?_eq_some_iff.mp hch
      have hword : Keyword.ofWord? (Element.readWord d).1 = none := by simpa [halpha] using h
      have hclose : d.eat? tagClose = none :=
        Cursor.eat?_eq_none_of_head_ne htail (Element.ne_of_isAlphabetic hletter (by decide)).symm
      have herror : Item.keywordError opening d =
          (Fault.missingKeyword (Element.readWord d).1).toError d.position := by
        simp only [Item.keywordError, hclose, Cursor.peek?_of_rest htail,
          Element.read_of_isAlphabetic htail hletter, Element.text]
      rw [herror]
      simp only [halpha, if_true, Lexer.firstToken, hword] at hnext
      exact run_of_refused hnext (by simp only [accept, hplace, Element.text])
    | false =>
      simp only [halpha, Bool.false_eq_true, if_false, Lexer.tagToken] at hnext
      cases hclose : d.eat? tagClose with
      | some e =>
        simp only [hclose] at hnext
        have herror : Item.keywordError opening d = Fault.emptyTag.toError opening := by
          simp only [Item.keywordError, hclose]
        rw [herror]
        exact run_of_refused hnext (by simp only [accept, hplace])
      | none =>
        cases hpeek : d.peek? with
        | none =>
          simp only [hclose, hpeek] at hnext
          have herror : Item.keywordError opening d = Fault.unterminatedTag.toError opening := by
            simp only [Item.keywordError, hclose, hpeek]
          rw [herror]
          exact run_of_refused hnext (by simp only [accept, hplace])
        | some ch =>
          simp only [hclose, hpeek] at hnext
          rcases hread : Element.read ch d with ⟨error | element, e⟩
          · have herror : Item.keywordError opening d = error := by
              simp only [Item.keywordError, hclose, hpeek, hread]
            rw [herror]
            rw [hread] at hnext
            exact run_of_lexError hnext
          · have herror : Item.keywordError opening d =
                (Fault.missingKeyword element.text).toError d.position := by
              simp only [Item.keywordError, hclose, hpeek, hread]
            rw [herror]
            rw [hread] at hnext
            exact run_of_refused hnext (by simp only [accept, hplace])

/-- After an opening delimiter, one whole tag is read and added. -/
theorem run_tagStart (c : Cursor) {opening : Position} (hplace : a.place = .tagStart opening) :
    a.run limit ⟨c, .tagStart⟩ =
      match Item.readTag opening c with
      | .error error => .error error
      | .ok (item, d) =>
          match a.addItem limit ⟨item, opening⟩ with
          | .error error => .error error
          | .ok b => b.run limit ⟨d, .text⟩ := by
  unfold Item.readTag
  cases hkeyword : Item.readKeyword? c.skipWhiteSpace with
  | none => exact run_of_readKeyword?_eq_none hplace hkeyword
  | some found =>
    obtain ⟨keyword, d⟩ := found
    let b : Assembly := { a with place := .tag opening keyword [] }
    have hnext : Lexer.next ⟨c, .tagStart⟩ =
        (.ok ⟨.keyword keyword, c.skipWhiteSpace.position⟩, ⟨d, .tag⟩) :=
      startToken_of_readKeyword? hkeyword
    have haccept : a.accept limit ⟨.keyword keyword, c.skipWhiteSpace.position⟩ =
        .ok (.unfinished b) := by
      simp only [accept, hplace, b]
    rw [run_of_accepted hnext haccept, run_tag d rfl]
    cases hall : Element.readAll opening d with
    | error error => simp only [hall]
    | ok r =>
      obtain ⟨elements, e⟩ := r
      simp only [hall, List.reverse_nil, List.nil_append, addTag_eq]
      cases Item.ofTag opening keyword elements with
      | error error => rfl
      | ok item => simp only [Except.map, b, addItem_place]

/-- Between two items, one whole item is read and added. -/
theorem run_body (c : Cursor) (hplace : a.place = .body) :
    a.run limit ⟨c, .text⟩ =
      match Item.next c with
      | .error error => .error error
      | .ok none => a.finish
      | .ok (some (item, d)) =>
          match a.addItem limit item with
          | .error error => .error error
          | .ok b => b.run limit ⟨d, .text⟩ := by
  have hnext : Lexer.next ⟨c, .text⟩ = Lexer.nextInText c := rfl
  unfold Lexer.nextInText at hnext
  unfold Item.next
  cases hopen : c.eat? tagOpen with
  | some d =>
    simp only [hopen] at hnext
    let b : Assembly := { a with place := .tagStart c.position }
    have haccept : a.accept limit ⟨.tagOpen, c.position⟩ = .ok (.unfinished b) := by
      simp only [accept, hplace, b]
    rw [run_of_accepted hnext haccept, run_tagStart d rfl]
    cases htag : Item.readTag c.position d with
    | error error => simp only [htag, Except.map]
    | ok r => simp only [htag, Except.map, b, addItem_place]
  | none =>
    simp only [hopen] at hnext
    cases hend : c.atEnd with
    | true =>
      simp only [hend, if_true] at hnext
      have haccept : a.accept limit ⟨.endOfInput, c.position⟩ = a.finish.map .finished := by
        simp only [accept, hplace]
      simp only [if_true]
      cases hfinish : a.finish with
      | error error =>
        rw [hfinish] at haccept
        exact run_of_refused hnext haccept
      | ok document =>
        rw [hfinish] at haccept
        exact run_of_finished hnext haccept
    | false =>
      simp only [hend, Bool.false_eq_true, if_false] at hnext
      rcases hscan : FreeText.scan c with ⟨error | content, d⟩
      · rw [hscan] at hnext
        exact run_of_lexError hnext
      · rw [hscan] at hnext
        have haccept : a.accept limit ⟨.text content, c.position⟩ =
            .ok (.unfinished (a.addNode (.text content))) := by
          simp only [accept, hplace]
        exact run_of_accepted hnext haccept

/-! ## The whole document -/

/-- **Reading from between two items is adding the items of the outline.** -/
theorem run_eq_settle (c : Cursor) (hplace : a.place = .body) :
    a.run limit ⟨c, .text⟩ = a.settle limit (outlineFrom c) := by
  fun_induction outlineFrom c generalizing a with
  | case1 c error h =>
    rw [run_body c hplace, h]
    rfl
  | case2 c h =>
    rw [run_body c hplace, h]
    rfl
  | case3 c item d h _ ih =>
    rw [run_body c hplace, h]
    simp only [settle, List.foldlM_cons]
    cases hadd : a.addItem limit item with
    | error error => rfl
    | ok b => exact ih (place_of_addItem hadd)

end Assembly

/-- The result of a document is that of its outline. -/
theorem parse_eq_settle (document : String) (options : ParseOptions) :
    parse document options = Assembly.empty.settle options.maxDepth (outline document) :=
  Assembly.run_eq_settle (.ofString document) rfl

end TagTemplate
