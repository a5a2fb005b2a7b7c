import TagTemplate.Assembly
import TagTemplate.Lexer
import TagTemplate.Proofs.Grammar

/-!
# The outline of a document

The outline of a document is the flat sequence of its items, read from left to right
without regard to how the loops lie in each other: texts, echo tags, `FOR` tags and
`END` tags, each with its position.  It goes up to the first item that is wrong in
itself, and holds the error of that one.  No limit and no open loop enters here.

Every item is read whole, from its first character to its last, by a reader that knows
no modes: `Element.readAll` reads a tag to its end before `Item.ofTag` judges it.

* `Item.exists_reads_next`: an item takes at least one character from the front.
* `outlineFrom_of_some`, `outlineFrom_of_none`, `outlineFrom_of_error`: the outline, item
  by item.
-/

namespace TagTemplate

theorem map_eq_ok_iff {ε α β : Type} {x : Except ε α} {f : α → β} {b : β} :
    x.map f = .ok b ↔ ∃ a, x = .ok a ∧ f a = b := by
  cases x <;> simp [Except.map]

theorem map_eq_error_iff {ε α β : Type} {x : Except ε α} {f : α → β} {e : ε} :
    x.map f = .error e ↔ x = .error e := by
  cases x <;> simp [Except.map]

/-- An element that is read is at least one character long. -/
theorem Element.exists_reads_of_read {c d : Cursor} {ch : Char} {tail : List Char}
    {element : Element} (hc : c.rest = ch :: tail) (h : read ch c = (.ok element, d)) :
    ∃ u, u ≠ [] ∧ Cursor.Reads c u d := by
  obtain ⟨u, hu, hnil⟩ := exists_reads_read hc
  rw [h] at hu hnil
  refine ⟨u, fun hempty => ?_, hu⟩
  obtain ⟨error, herror⟩ := hnil hempty
  exact absurd herror (by simp)

theorem Element.rest_length_lt_of_read {c d : Cursor} {ch : Char} {tail : List Char}
    {element : Element} (hc : c.skipWhiteSpace.rest = ch :: tail)
    (h : read ch c.skipWhiteSpace = (.ok element, d)) : d.rest.length < c.rest.length := by
  obtain ⟨u, hu, hreads⟩ := exists_reads_of_read hc h
  have hblanks := (Cursor.reads_skipWhiteSpace c).length_le
  have hlength := hreads.length_lt hu
  omega

/-- Reads the elements of a tag and the delimiter that closes it. -/
def Element.readAll (opening : Position) (c : Cursor) :
    Except Error (List (Located Element) × Cursor) :=
  match c.skipWhiteSpace.eat? tagClose with
  | some d => .ok ([], d)
  | none =>
      match hc : c.skipWhiteSpace.rest with
      | [] => .error (Fault.unterminatedTag.toError opening)
      | ch :: _ =>
          match hr : read ch c.skipWhiteSpace with
          | (.error error, _) => .error error
          | (.ok element, d) =>
              have := rest_length_lt_of_read hc hr
              (readAll opening d).map fun r =>
                (⟨element, c.skipWhiteSpace.position⟩ :: r.1, r.2)
termination_by c.rest.length

namespace Item

/-- The item that a tag is, or what is wrong with a tag of that keyword. -/
def ofTag (opening : Position) (keyword : Keyword) (elements : List (Located Element)) :
    Except Error Item :=
  match keyword with
  | .echo => .ok (.echo (elements.map Located.value))
  | .openLoop => (LoopHeader.ofElements opening elements).map .openLoop
  | .closeLoop =>
      match elements with
      | [] => .ok .closeLoop
      | element :: _ =>
          .error ((Fault.endElement element.value.text).toError element.position)

/-- The keyword at a cursor and the cursor after it, if a keyword stands there. -/
def readKeyword? (c : Cursor) : Option (Keyword × Cursor) :=
  match c.eat? ['='] with
  | some d => some (.echo, d)
  | none =>
      if c.peek?.any Character.isAlphabetic then
        (Keyword.ofWord? (Element.readWord c).1).map fun keyword =>
          (keyword, (Element.readWord c).2)
      else none

/-- What is wrong with a tag that starts with something else than a keyword. -/
def keywordError (opening : Position) (c : Cursor) : Error :=
  match c.eat? tagClose with
  | some _ => Fault.emptyTag.toError opening
  | none =>
      match c.peek? with
      | none => Fault.unterminatedTag.toError opening
      | some ch =>
          match (Element.read ch c).1 with
          | .error error => error
          | .ok element => (Fault.missingKeyword element.text).toError c.position

/-- Reads a tag from the cursor after its opening delimiter. -/
def readTag (opening : Position) (c : Cursor) : Except Error (Item × Cursor) :=
  match readKeyword? c.skipWhiteSpace with
  | none => .error (keywordError opening c.skipWhiteSpace)
  | some (keyword, d) =>
      match Element.readAll opening d with
      | .error error => .error error
      | .ok (elements, rest) => (ofTag opening keyword elements).map (·, rest)

/-- Reads one item, unless nothing is left. -/
def next (c : Cursor) : Except Error (Option (Located Item × Cursor)) :=
  match c.eat? tagOpen with
  | some d => (readTag c.position d).map fun r => some (⟨r.1, c.position⟩, r.2)
  | none =>
      if c.atEnd then .ok none
      else
        match FreeText.scan c with
        | (.error error, _) => .error error
        | (.ok content, d) => .ok (some (⟨.text content, c.position⟩, d))

end Item

/-! ## Progress -/

theorem Element.exists_reads_readAll {opening : Position} {c d : Cursor}
    {elements : List (Located Element)} (h : readAll opening c = .ok (elements, d)) :
    ∃ u, Cursor.Reads c u d := by
  fun_induction readAll opening c generalizing elements d with
  | case1 c e he =>
    obtain ⟨-, rfl⟩ := Prod.mk.inj (Except.ok.inj h)
    exact ⟨_, (Cursor.reads_skipWhiteSpace c).trans (Cursor.reads_of_eat? he)⟩
  | case2 => simp at h
  | case3 => simp at h
  | case4 c _ ch tail hc element e hr _ ih =>
    obtain ⟨⟨more, f⟩, hmore, heq⟩ := map_eq_ok_iff.mp h
    obtain ⟨u, -, hu⟩ := exists_reads_of_read hc hr
    obtain ⟨v, hv⟩ := ih hmore
    obtain ⟨-, rfl⟩ := Prod.mk.inj heq
    exact ⟨_, ((Cursor.reads_skipWhiteSpace c).trans hu).trans hv⟩

namespace Item

theorem exists_reads_readKeyword? {c d : Cursor} {keyword : Keyword}
    (h : readKeyword? c = some (keyword, d)) : ∃ u, Cursor.Reads c u d := by
  unfold readKeyword? at h
  split at h
  · rename_i e he
    obtain ⟨-, rfl⟩ := Prod.mk.inj (Option.some.inj h)
    exact ⟨_, Cursor.reads_of_eat? he⟩
  · split at h
    · obtain ⟨k, -, hk⟩ := Option.map_eq_some_iff.mp h
      obtain ⟨-, rfl⟩ := Prod.mk.inj hk
      exact ⟨_, Element.reads_readWord c⟩
    · exact absurd h (by simp)

/-- A tag that is read is its keyword, its elements, and what they make together. -/
theorem readTag_eq_ok_iff {opening : Position} {c d : Cursor} {item : Item} :
    readTag opening c = .ok (item, d) ↔
      ∃ keyword e elements, readKeyword? c.skipWhiteSpace = some (keyword, e) ∧
        Element.readAll opening e = .ok (elements, d) ∧
        ofTag opening keyword elements = .ok item := by
  unfold readTag
  constructor
  · intro h
    split at h
    · exact absurd h (by simp)
    · rename_i keyword e hkeyword
      split at h
      · exact absurd h (by simp)
      · rename_i elements rest hall
        obtain ⟨i, hi, heq⟩ := map_eq_ok_iff.mp h
        obtain ⟨rfl, rfl⟩ := Prod.mk.inj heq
        exact ⟨keyword, e, elements, hkeyword, hall, hi⟩
  · rintro ⟨keyword, e, elements, hkeyword, hall, hi⟩
    simp only [hkeyword, hall, hi, Except.map]

theorem exists_reads_readTag {opening : Position} {c d : Cursor} {item : Item}
    (h : readTag opening c = .ok (item, d)) : ∃ u, Cursor.Reads c u d := by
  obtain ⟨keyword, e, elements, hkeyword, hall, -⟩ := readTag_eq_ok_iff.mp h
  obtain ⟨u, hu⟩ := exists_reads_readKeyword? hkeyword
  obtain ⟨v, hv⟩ := Element.exists_reads_readAll hall
  exact ⟨_, ((Cursor.reads_skipWhiteSpace c).trans hu).trans hv⟩

/-- An item is read from where it stands: a tag after its opening delimiter, and a text
where no tag opens. -/
theorem next_eq_some_iff {c d : Cursor} {item : Located Item} :
    next c = .ok (some (item, d)) ↔ item.position = c.position ∧
      ((∃ e, c.eat? tagOpen = some e ∧ readTag c.position e = .ok (item.value, d)) ∨
        (c.eat? tagOpen = none ∧ c.rest ≠ [] ∧
          ∃ content, FreeText.scan c = (.ok content, d) ∧ item.value = .text content)) := by
  obtain ⟨value, position⟩ := item
  unfold next
  constructor
  · intro h
    split at h
    · rename_i e he
      obtain ⟨⟨i, f⟩, hi, heq⟩ := map_eq_ok_iff.mp h
      simp only [Option.some.injEq, Prod.mk.injEq, Located.mk.injEq] at heq
      obtain ⟨⟨rfl, rfl⟩, rfl⟩ := heq
      exact ⟨rfl, .inl ⟨e, he, hi⟩⟩
    · rename_i hopen
      split at h
      · exact absurd h (by simp)
      · rename_i hend
        split at h
        · exact absurd h (by simp)
        · rename_i content f hscan
          simp only [Except.ok.injEq, Option.some.injEq, Prod.mk.injEq, Located.mk.injEq] at h
          obtain ⟨⟨rfl, rfl⟩, rfl⟩ := h
          refine ⟨rfl, .inr ⟨hopen, fun hnil => hend ?_, content, hscan, rfl⟩⟩
          rw [Cursor.atEnd, hnil, List.isEmpty_nil]
  · rintro ⟨rfl, ⟨e, he, hi⟩ | ⟨hopen, hne, content, hscan, rfl⟩⟩
    · simp only [he, hi, Except.map]
    · have hend : c.atEnd = false := by
        rw [Cursor.atEnd, List.isEmpty_eq_false_iff]
        exact hne
      simp only [hopen, hend, hscan, Bool.false_eq_true, if_false]

/-- An item takes at least one character from the front. -/
theorem exists_reads_next {c d : Cursor} {item : Located Item}
    (h : next c = .ok (some (item, d))) : ∃ u, u ≠ [] ∧ Cursor.Reads c u d := by
  obtain ⟨-, ⟨e, he, hi⟩ | ⟨hopen, hne, content, hscan, -⟩⟩ := next_eq_some_iff.mp h
  · obtain ⟨u, hu⟩ := exists_reads_readTag hi
    exact ⟨tagOpen ++ u, by simp [tagOpen], (Cursor.reads_of_eat? he).trans hu⟩
  · obtain ⟨u, hu, hnil⟩ := FreeText.exists_reads_scan c
    rw [hscan] at hu
    refine ⟨u, fun hempty => ?_, hu⟩
    rcases hnil hempty with hend | htag
    · exact hne hend
    · exact Cursor.eat?_eq_none_iff.mp hopen htag

theorem next_eq_none_iff {c : Cursor} : next c = .ok none ↔ c.rest = [] := by
  unfold next
  constructor
  · intro h
    split at h
    · obtain ⟨r, -, hr⟩ := map_eq_ok_iff.mp h
      exact absurd hr (by simp)
    · split at h
      · rename_i hend
        exact List.isEmpty_iff.mp hend
      · split at h <;> exact absurd h (by simp)
  · intro h
    have hopen : c.eat? tagOpen = none := by
      rw [Cursor.eat?_eq_none_iff, h]
      simp [tagOpen]
    simp only [hopen, Cursor.atEnd, h, List.isEmpty_nil, if_true]

end Item

/-! ## The outline -/

/-- The items of a document up to the first one that is wrong in itself, and the error
of that one, if there is one. -/
structure Outline where
  items : List (Located Item)
  fault : Option Error

theorem Item.rest_length_lt_of_next {c d : Cursor} {item : Located Item}
    (h : next c = .ok (some (item, d))) : d.rest.length < c.rest.length := by
  obtain ⟨u, hu, hreads⟩ := exists_reads_next h
  exact hreads.length_lt hu

/-- The outline of what is left at a cursor. -/
def outlineFrom (c : Cursor) : Outline :=
  match h : Item.next c with
  | .error error => ⟨[], some error⟩
  | .ok none => ⟨[], none⟩
  | .ok (some (item, d)) =>
      have := Item.rest_length_lt_of_next h
      ⟨item :: (outlineFrom d).items, (outlineFrom d).fault⟩
termination_by c.rest.length

/-- The outline of a document. -/
def outline (document : String) : Outline := outlineFrom (.ofString document)

theorem outlineFrom_of_error {c : Cursor} {error : Error} (h : Item.next c = .error error) :
    outlineFrom c = ⟨[], some error⟩ := by
  rw [outlineFrom]
  split <;> simp_all

theorem outlineFrom_of_none {c : Cursor} (h : Item.next c = .ok none) :
    outlineFrom c = ⟨[], none⟩ := by
  rw [outlineFrom]
  split <;> simp_all

theorem outlineFrom_of_some {c d : Cursor} {item : Located Item}
    (h : Item.next c = .ok (some (item, d))) :
    outlineFrom c = ⟨item :: (outlineFrom d).items, (outlineFrom d).fault⟩ := by
  rw [outlineFrom]
  split <;> simp_all

end TagTemplate
