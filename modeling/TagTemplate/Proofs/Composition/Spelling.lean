import Mathlib.Data.List.Basic
import TagTemplate.Proofs.Canonical.Items

/-!
# Spellings in front of more text

Every judgement of the grammar names what stands after the part that it is about, so more
text can be put there.  What has to be kept is the end of the part: a word, a number or a sign
is over because of the character after it, and that character is the same if there was one.
Inside a tag there always is one, since the tag has to be closed, and so a tag does not mind
what follows it (`Item.Spelling.append`).

A text is the exception, for it may end with the document.  In front of a tag it still ends
there (`FreeText.Spelling.append`); in front of another text the two become one
(`FreeText.Spelling.join`), unless a brace that is not escaped and a dollar sign meet.
-/

namespace TagTemplate

variable {input rest more : List Char}

/-- What ends a run ends it in front of more text as well. -/
theorem Stops.append {p : Char → Bool} (h : Stops p rest) (hne : rest ≠ [])
    (more : List Char) : Stops p (rest ++ more) := by
  intro c hc
  rw [List.head?_append_of_ne_nil _ hne] at hc
  exact h c hc

theorem Blanks.append (h : Blanks input rest) (more : List Char) :
    Blanks (input ++ more) (rest ++ more) := by
  obtain ⟨u, hu, rfl⟩ := h
  exact ⟨u, hu, List.append_assoc _ _ _⟩

/-! ## Strings and elements -/

namespace Quoted

theorem Spelling.ne_nil {value : List Char} (h : Spelling input value rest) : input ≠ [] := by
  cases h <;> simp

theorem Spelling.append {value : List Char} (h : Spelling input value rest)
    (more : List Char) : Spelling (input ++ more) value (rest ++ more) := by
  induction h with
  | close => exact .close
  | escape hd _ ih => exact .escape hd ih
  | @plain c input value rest hquote hslash hclose h ih =>
    refine .plain hquote hslash (fun hfront => hclose ?_) ih
    obtain ⟨hdollar, hbrace⟩ := tagClose_prefix_cons_iff.mp hfront
    have hhead : (input ++ more).head? = some '}' := hbrace
    rw [List.head?_append_of_ne_nil _ h.ne_nil] at hhead
    exact tagClose_prefix_cons_iff.mpr ⟨hdollar, hhead⟩

end Quoted

namespace Element

/-- An element with something after it is the same in front of more text. -/
theorem Spelling.append {element : Element} (h : Spelling input element rest)
    (hne : rest ≠ []) (more : List Char) : Spelling (input ++ more) element (rest ++ more) := by
  cases h with
  | var hw hrest =>
    rw [List.append_assoc]
    exact .var hw (hrest.append hne more)
  | function hw hrest =>
    rw [List.cons_append, List.append_assoc]
    exact .function hw (hrest.append hne more)
  | number hn hword hpoint h =>
    rw [List.append_assoc]
    exact .number hn (hword.append hne more) (hpoint.append hne more) h
  | string h => exact .string (h.append more)
  | operator hc hminus => exact .operator hc fun h => (hminus h).append hne more

theorem Listing.ne_nil {elements : List Element} (h : Listing input elements rest) :
    input ≠ [] := by
  cases h with
  | close hblanks =>
    obtain ⟨u, -, rfl⟩ := hblanks
    simp [tagClose]
  | cons hblanks helement _ =>
    obtain ⟨u, -, rfl⟩ := hblanks
    obtain ⟨ch, tail, rfl, -⟩ := helement.exists_cons
    simp

/-- What is in a tag is the same in front of more text. -/
theorem Listing.append {elements : List Element} (h : Listing input elements rest)
    (more : List Char) : Listing (input ++ more) elements (rest ++ more) := by
  induction h with
  | close hblanks =>
    have hmore := hblanks.append more
    rw [List.append_assoc] at hmore
    exact .close hmore
  | cons hblanks helement hlisting ih =>
    exact .cons (hblanks.append more) (helement.append hlisting.ne_nil more) ih

end Element

theorem KeywordSpelling.append {keyword : List Char} (h : KeywordSpelling keyword input rest)
    (hne : rest ≠ []) (more : List Char) :
    KeywordSpelling keyword (input ++ more) (rest ++ more) := by
  obtain ⟨w, hblanks, hupper, hstops⟩ := h
  have hmore := hblanks.append more
  rw [List.append_assoc] at hmore
  exact ⟨w, hmore, hupper, hstops.append hne more⟩

/-! ## Texts -/

namespace FreeText

theorem eq_nil_of_spelling_nil {content : List Char} (h : Spelling [] content rest) :
    rest = [] := by
  cases h with
  | done h => rfl

/-- A text in front of a tag ends there, and a text that ended in front of a tag still does. -/
theorem Spelling.append {content : List Char} (h : Spelling input content rest)
    (hend : rest = [] → more = [] ∨ tagOpen <+: more) :
    Spelling (input ++ more) content (rest ++ more) := by
  induction h with
  | @done rest h =>
    refine .done ?_
    rcases h with rfl | htag
    · exact hend rfl
    · exact .inr (htag.trans (List.prefix_append _ _))
  | backslash _ ih => exact .backslash (ih hend)
  | brace _ ih => exact .brace (ih hend)
  | @plain c input content rest hc hopen h ih =>
    refine .plain hc (fun hfront => ?_) (ih hend)
    obtain ⟨rfl, hdollar⟩ := tagOpen_prefix_cons_iff.mp hfront
    cases input with
    | cons d input => exact hopen (tagOpen_prefix_cons_iff.mpr ⟨rfl, hdollar⟩)
    | nil =>
      -- the text ended after the brace, and what is put there starts with another brace
      rcases hend (eq_nil_of_spelling_nil h) with rfl | ⟨t, rfl⟩
      · exact absurd hdollar (by simp)
      · exact absurd hdollar (by simp [tagOpen])

/-- **Two texts that meet are one text**, unless a tag opens where they meet. -/
theorem Spelling.join {u v a b : List Char} (h : Spelling u a []) (k : Spelling v b rest)
    (hseam : ∀ w content, u = w ++ ['{'] → Spelling w content [] → v.head? ≠ some '$') :
    Spelling (u ++ v) (a ++ b) rest := by
  generalize hrest : ([] : List Char) = last at h
  induction h with
  | done h =>
    obtain rfl := hrest
    exact k
  | @backslash input content _ h ih =>
    refine .backslash (ih (fun w inside hw hspell => ?_) hrest)
    exact hseam _ _ (by rw [hw]; rfl) (.backslash hspell)
  | @brace input content _ h ih =>
    refine .brace (ih (fun w inside hw hspell => ?_) hrest)
    exact hseam _ _ (by rw [hw]; rfl) (.brace hspell)
  | @plain c input content _ hc hopen h ih =>
    refine .plain hc (fun hfront => ?_) (ih (fun w inside hw hspell => ?_) hrest)
    · obtain ⟨rfl, hdollar⟩ := tagOpen_prefix_cons_iff.mp hfront
      cases input with
      | cons d input => exact hopen (tagOpen_prefix_cons_iff.mpr ⟨rfl, hdollar⟩)
      | nil =>
        -- the brace is the last unit of the first text
        exact hseam [] [] rfl (.done (.inl rfl)) hdollar
    · refine hseam (c :: w) (c :: inside) (by rw [hw]; rfl) (.plain hc (fun hfront => ?_) hspell)
      rw [hw, ← List.cons_append] at hopen
      exact hopen (hfront.trans (List.prefix_append _ _))

end FreeText

/-! ## Items -/

namespace Item

variable {item : Item}

theorem Spelling.ne_nil (h : Spelling input item rest) : input ≠ [] := by
  cases h with
  | text h hne => exact (not_tagOpen_prefix_of_spelling h hne).2
  | echo hsign h => simp [tagOpen]
  | openLoop hword h hheader => simp [tagOpen]
  | closeLoop hword h => simp [tagOpen]

/-- The literal text that a text item is spelled as. -/
theorem Spelling.exists_freeText {content : String} (h : Spelling input (.text content) rest) :
    ∃ inside, FreeText.Spelling input inside rest ∧ inside ≠ [] ∧
      content = String.ofList inside := by
  generalize htext : Item.text content = item at h
  cases h with
  | text h hne => exact ⟨_, h, hne, Item.text.inj htext⟩
  | echo => exact absurd htext (by simp)
  | openLoop => exact absurd htext (by simp)
  | closeLoop => exact absurd htext (by simp)

/-- **A tag is the same in front of any text**, and so is a text if it ends there as well. -/
theorem Spelling.append (h : Spelling input item rest)
    (hend : item.isText = true → rest = [] → more = [] ∨ tagOpen <+: more) :
    Spelling (input ++ more) item (rest ++ more) := by
  cases h with
  | text h hne => exact .text (h.append (hend rfl)) hne
  | echo hsign h =>
    rw [List.append_assoc]
    exact .echo (hsign.append more) (h.append more)
  | openLoop hword h hheader =>
    rw [List.append_assoc]
    exact .openLoop (hword.append h.ne_nil more) (h.append more) hheader
  | closeLoop hword h =>
    rw [List.append_assoc]
    exact .closeLoop (hword.append h.ne_nil more) (h.append more)

end Item
end TagTemplate
