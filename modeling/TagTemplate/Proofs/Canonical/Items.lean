import TagTemplate.Proofs.Canonical.Elements
import TagTemplate.Proofs.Outline.Runs

/-!
# Items read back from their texts

The canonical text of trees is the canonical texts of the items on their walk, one after
another (`Node.toList_canonicalTexts`), so what reads back is a matter of items in a row.

A tag ends where it ends, but a text goes on until the next tag.  Items in a row are
`Apart` when no text is empty and no text follows another; then, and if all of them are
well-formed, their canonical texts spell them (`Item.exists_run_of_apart`).  Conversely,
what is read is always of this kind (`Item.Run.apart`, `Item.Run.wellFormed`).
-/

namespace TagTemplate

open Node (itemsBelow)

/-- The header is that of a loop, and its elements read back. -/
structure LoopHeader.WellFormed (header : LoopHeader) : Prop where
  isLoop : header.IsLoop
  wellFormed_of_mem : ∀ element ∈ header.elements, element.WellFormed

namespace Item

/-- The item has a text that reads back. -/
def WellFormed : Item → Prop
  | text _ => True
  | echo elements => ∀ element ∈ elements, element.WellFormed
  | openLoop header => header.WellFormed
  | closeLoop => True

def isText : Item → Bool
  | text _ => true
  | _ => false

/-- The canonical text of an item. -/
def canonicalText : Item → List Char
  | text content => FreeText.encode content.toList
  | echo elements => (echoTagText elements).toList
  | openLoop header => header.tagText.toList
  | closeLoop => endTagText.toList

/-- No text is empty, and no text follows another. -/
def Apart : List Item → Prop
  | [] => True
  | item :: items =>
      item ≠ .text "" ∧ (item.isText = true → ∀ next ∈ items.head?, next.isText = false) ∧
        Apart items

variable {input rest : List Char} {item : Item} {items : List Item}

/-! ## One item -/

/-- The written form of a text spells it in front of a tag and at the end. -/
theorem spelling_encode (content : List Char) (h : rest = [] ∨ tagOpen <+: rest) :
    FreeText.Spelling (FreeText.encode content ++ rest) content rest := by
  induction content with
  | nil => exact .done h
  | cons c content ih =>
    rw [FreeText.encode, List.flatMap_cons, List.append_assoc]
    unfold FreeText.escape
    split
    · rename_i hc
      rw [hc]
      exact .backslash ih
    split
    · rename_i hc
      rw [hc]
      exact .brace ih
    · rename_i hslash hbrace
      refine .plain hslash (fun hopen => hbrace ?_) ih
      exact (FreeText.tagOpen_prefix_cons_iff.mp hopen).1

/-- The canonical text of a tag starts with the delimiter that opens it. -/
theorem exists_canonicalText_eq (h : item.isText = false) :
    ∃ u, item.canonicalText = tagOpen ++ u := by
  cases item with
  | text content => exact absurd h (by simp [isText])
  | echo elements => exact ⟨_, by rw [canonicalText, echoTagText, String.toList_append,
      String.toList_append, List.append_assoc]; rfl⟩
  | openLoop header => exact ⟨_, by rw [canonicalText, LoopHeader.tagText, String.toList_append,
      String.toList_append, List.append_assoc]; rfl⟩
  | closeLoop => exact ⟨_, rfl⟩

/-- The canonical text of a well-formed item spells it.  A text has to be followed by a
tag or by nothing. -/
theorem spelling_canonicalText (h : item.WellFormed) (hne : item ≠ .text "")
    (hrest : item.isText = true → rest = [] ∨ tagOpen <+: rest) :
    Spelling (item.canonicalText ++ rest) item rest := by
  cases item with
  | text content =>
    have hspell := spelling_encode content.toList (hrest rfl)
    have hcontent : content.toList ≠ [] := by
      intro hnil
      exact hne (by rw [String.toList_eq_nil_iff.mp hnil])
    have htext := Spelling.text hspell hcontent
    rwa [String.ofList_toList] at htext
  | echo elements =>
    have hall := Element.listing_listText h rest
    have hecho := Spelling.echo (Element.blanks_refl _) hall
    have htext : canonicalText (.echo elements) ++ rest = tagOpen ++ '=' :: ' ' ::
        ((Element.listText elements).toList ++ ' ' :: (tagClose ++ rest)) := by
      simp [canonicalText, echoTagText, tagOpen, tagClose]
    rwa [htext]
  | openLoop header =>
    have hall := Element.listing_listText h.wellFormed_of_mem rest
    have hword : KeywordSpelling ['F', 'O', 'R'] (' ' :: 'F' :: 'O' :: 'R' :: ' ' ::
        ((Element.listText header.elements).toList ++ ' ' :: (tagClose ++ rest)))
        (' ' :: ((Element.listText header.elements).toList ++ ' ' :: (tagClose ++ rest))) := by
      refine ⟨['F', 'O', 'R'], Element.blanks_space _, by decide, ?_⟩
      rw [stops_cons]
      decide
    have hloop := Spelling.openLoop hword hall h.isLoop
    have htext : canonicalText (.openLoop header) ++ rest = tagOpen ++ ' ' :: 'F' :: 'O' ::
        'R' :: ' ' :: ((Element.listText header.elements).toList ++
          ' ' :: (tagClose ++ rest)) := by
      simp [canonicalText, LoopHeader.tagText, tagOpen, tagClose]
    rwa [htext]
  | closeLoop =>
    have hword : KeywordSpelling ['E', 'N', 'D'] ('E' :: 'N' :: 'D' :: (tagClose ++ rest))
        (tagClose ++ rest) := by
      refine ⟨['E', 'N', 'D'], Element.blanks_refl _, by decide, ?_⟩
      rw [tagClose, List.cons_append, stops_cons]
      decide
    exact .closeLoop hword (.close (Element.blanks_refl _))

/-- Only items with a text that reads back are spelled. -/
theorem Spelling.wellFormed (h : Spelling input item rest) : item.WellFormed := by
  cases h with
  | text h hne => trivial
  | echo hsign h => exact h.wellFormed
  | openLoop hword h hheader => exact ⟨hheader, h.wellFormed⟩
  | closeLoop hword h => trivial

theorem Spelling.ne_empty (h : Spelling input item rest) : item ≠ .text "" := by
  rintro rfl
  generalize htext : Item.text "" = item at h
  cases h with
  | text h hne =>
    have hcontent := congrArg String.toList (Item.text.inj htext)
    exact hne (by simpa using hcontent.symm)
  | echo hsign h => exact absurd htext (by simp)
  | openLoop hword h hheader => exact absurd htext (by simp)
  | closeLoop hword h => exact absurd htext (by simp)

/-- A text ends where the text is over or a tag opens. -/
theorem end_of_spelling {content : List Char} (h : FreeText.Spelling input content rest) :
    rest = [] ∨ tagOpen <+: rest := by
  induction h with
  | done h => exact h
  | backslash _ ih => exact ih
  | brace _ ih => exact ih
  | plain _ _ _ ih => exact ih

theorem Spelling.end_of_isText (h : Spelling input item rest) (htext : item.isText = true) :
    rest = [] ∨ tagOpen <+: rest := by
  cases h with
  | text h hne => exact end_of_spelling h
  | echo hsign h => exact absurd htext (by simp [isText])
  | openLoop hword h hheader => exact absurd htext (by simp [isText])
  | closeLoop hword h => exact absurd htext (by simp [isText])

theorem Spelling.not_isText_of_end (h : Spelling input item rest)
    (hend : input = [] ∨ tagOpen <+: input) : item.isText = false := by
  cases h with
  | text h hne =>
    obtain ⟨hopen, hcons⟩ := not_tagOpen_prefix_of_spelling h hne
    exact absurd hend (by simp [hopen, hcons])
  | echo hsign h => rfl
  | openLoop hword h hheader => rfl
  | closeLoop hword h => rfl

/-- A tag starts with the delimiter that opens it. -/
theorem Spelling.tagOpen_prefix (h : Spelling input item rest) (htag : item.isText = false) :
    tagOpen <+: input := by
  cases h with
  | text h hne => exact absurd htag (by simp [isText])
  | echo hsign h => exact List.prefix_append _ _
  | openLoop hword h hheader => exact List.prefix_append _ _
  | closeLoop hword h => exact List.prefix_append _ _

/-! ## Items in a row -/

variable {c d : Cursor} {located : List (Located Item)}

/-- What is read is well-formed. -/
theorem Run.wellFormed (h : Run c located d) :
    ∀ item ∈ located.map Located.value, item.WellFormed := by
  induction h with
  | nil => simp
  | cons hspell _ _ ih =>
    intro item hmem
    rcases List.mem_cons.mp hmem with rfl | hmem
    · exact hspell.wellFormed
    · exact ih item hmem

/-- **What is read is apart.** -/
theorem Run.apart (h : Run c located d) : Apart (located.map Located.value) := by
  induction h with
  | nil => trivial
  | @cons c d e u item items hspell _ hitems ih =>
    refine ⟨hspell.ne_empty, fun htext next hnext => ?_, ih⟩
    -- the text ended where a tag opens, so the next item is no text
    have hend := hspell.end_of_isText htext
    cases hitems with
    | nil => exact absurd hnext (by simp)
    | cons hspell' _ _ =>
      obtain rfl := Option.some.inj hnext
      exact hspell'.not_isText_of_end hend

/-- What follows a text in a row of items starts with a tag. -/
theorem end_of_head? (h : ∀ next ∈ items.head?, next.isText = false) :
    items.flatMap canonicalText = [] ∨ tagOpen <+: items.flatMap canonicalText := by
  cases items with
  | nil => exact .inl rfl
  | cons next items =>
    obtain ⟨u, hu⟩ := exists_canonicalText_eq (h next rfl)
    rw [List.flatMap_cons, hu, List.append_assoc]
    exact .inr (List.prefix_append _ _)

/-- **Items that are apart are spelled by their canonical texts.** -/
theorem exists_run_of_apart (hwell : ∀ item ∈ items, item.WellFormed) (h : Apart items)
    {c : Cursor} (hc : c.rest = items.flatMap canonicalText) :
    ∃ located d, Run c located d ∧ d.rest = [] ∧ located.map Located.value = items := by
  induction items generalizing c with
  | nil => exact ⟨[], c, .nil, hc, rfl⟩
  | cons item items ih =>
    obtain ⟨hne, hnext, hmore⟩ := h
    have hspell := spelling_canonicalText (hwell item List.mem_cons_self) hne
      fun htext => end_of_head? (hnext htext)
    rw [List.flatMap_cons] at hc
    exact hspell.exists_run_cons hc fun d hd =>
      ih (fun i hi => hwell i (List.mem_cons_of_mem _ hi)) hmore hd

end Item

namespace Node

/-- **The canonical text of trees is that of their walk.** -/
theorem toList_canonicalTexts (nodes : List Node) :
    (canonicalTexts nodes).toList = (itemsBelow nodes).flatMap Item.canonicalText := by
  have hcons : ∀ (node : Node) (nodes : List Node), (canonicalTexts (node :: nodes)).toList =
      (canonicalText node).toList ++ (canonicalTexts nodes).toList := by
    intro node nodes
    rw [canonicalTexts, writeAllOnto, writeAllOnto_eq_append, String.toList_append]
    rfl
  induction nodes using forest_induction with
  | nil => rfl
  | text content nodes ih =>
    rw [hcons, ih, canonicalText, writeOnto]
    simp [items, Item.canonicalText]
  | echo elements nodes ih =>
    rw [hcons, ih, canonicalText, writeOnto]
    simp [items, Item.canonicalText]
  | forLoop header children nodes ihc ih =>
    rw [hcons, ih, canonicalText, writeOnto, writeAllOnto_eq_append]
    rw [canonicalTexts] at ihc
    simp [items, Item.canonicalText, ihc]
  | document children nodes ihc ih =>
    rw [hcons, ih, canonicalText, writeOnto]
    rw [canonicalTexts] at ihc
    simp [items, ihc]

end Node
end TagTemplate
