import TagTemplate.Proofs.Canonical.RoundTrip
import TagTemplate.Proofs.Composition.Spelling

/-!
# Documents put together

What a document means does not depend on where it stands.  Two documents in a row are the
trees of the first and the trees of the second, with the two texts that may meet in between
made one (`derives_append_iff`); a document between a `FOR` tag and an `END` tag is the body
of that loop (`Derives.forLoop`).

Whether the loops are closed plays no part in this, so everything happens to the items:
`Item.Spells` says which items a text is, and `derives_iff_spells` that a tree is its items.
Between two texts there is one seam at which something new comes up: a brace that is not
escaped in front of a dollar sign opens a tag that neither of them has.

* `Item.Spells.join`: at every other seam the items are kept.
* `Item.Spells.not_joinSeam`: at that seam they never are.
-/

namespace TagTemplate

open Node (itemsBelow DocumentFreeBelow nestingBelow)

namespace Item

variable {u v input rest : List Char} {item : Item} {as bs items : List Item}

/-! ## The items of a text -/

/-- The text is the items, one after another. -/
inductive Spells : List Char → List Item → Prop where
  | nil : Spells [] []
  | cons {input rest : List Char} {item : Item} {items : List Item}
      (h : Spelling input item rest) (hitems : Spells rest items) : Spells input (item :: items)

theorem Spells.eq_nil (h : Spells [] items) : items = [] := by
  cases h with
  | nil => rfl
  | cons h _ => exact absurd rfl h.ne_nil

/-- The first of the items stands at the front. -/
theorem Spells.exists_spelling (h : Spells input (item :: items)) :
    ∃ rest, Spelling input item rest ∧ Spells rest items := by
  cases h with
  | cons h hitems => exact ⟨_, h, hitems⟩

/-- A text that starts with an item has the items of what stands after it. -/
theorem Spells.exists_cons (h : Spells input items) (hitem : Spelling input item rest) :
    ∃ more, items = item :: more ∧ Spells rest more := by
  cases h with
  | nil => exact absurd rfl hitem.ne_nil
  | cons h hitems =>
    obtain ⟨rfl, rfl⟩ := h.unique hitem
    exact ⟨_, rfl, hitems⟩

theorem Run.spells {c d : Cursor} {located : List (Located Item)} (h : Run c located d)
    (hend : d.rest = []) : Spells c.rest (located.map Located.value) := by
  induction h with
  | nil =>
    rw [hend]
    exact .nil
  | cons h hread _ ih => exact .cons h (ih hend)

theorem Spells.exists_run (h : Spells input items) {c : Cursor} (hc : c.rest = input) :
    ∃ located d, Run c located d ∧ d.rest = [] ∧ located.map Located.value = items := by
  induction h generalizing c with
  | nil => exact ⟨[], c, .nil, hc, rfl⟩
  | cons h _ ih => exact h.exists_run_cons hc fun d hd => ih hd

/-! ## Two texts in a row -/

/-- The text ends in a brace that is a unit of literal text by itself: neither the second
half of an escape, nor part of a tag. -/
inductive EndsInBrace : List Char → Prop where
  | text {u content : List Char} (h : FreeText.Spelling u content []) : EndsInBrace (u ++ ['{'])
  | item {input rest : List Char} {item : Item} (h : Spelling input item rest)
      (hrest : EndsInBrace rest) : EndsInBrace input

/-- The items of the first list and then those of the second, with two texts that meet
joined. -/
def joinSeam : List Item → List Item → List Item
  | [], bs => bs
  | [item], bs => consJoined item bs
  | item :: next :: items, bs => item :: joinSeam (next :: items) bs

theorem joinSeam_cons (hne : items ≠ []) : joinSeam (item :: items) bs =
    item :: joinSeam items bs := by
  cases items with
  | nil => exact absurd rfl hne
  | cons next items => rfl

theorem joinSeam_append (as : List Item) (hne : items ≠ []) :
    joinSeam (as ++ items) bs = as ++ joinSeam items bs := by
  induction as with
  | nil => rfl
  | cons item as ih => rw [List.cons_append, joinSeam_cons (by simp [hne]), ih, List.cons_append]

/-- Nothing is joined in front of a tag. -/
theorem joinSeam_cons_of_not_isText {tag : Item} (h : tag.isText = false) :
    joinSeam as (tag :: bs) = as ++ tag :: bs := by
  induction as with
  | nil => rfl
  | cons item items ih =>
    cases items with
    | nil =>
      cases tag with
      | text content => exact absurd h (by simp [isText])
      | echo elements => cases item <;> rfl
      | openLoop header => cases item <;> rfl
      | closeLoop => cases item <;> rfl
    | cons next items => exact congrArg (item :: ·) ih

theorem EndsInBrace.ne_nil (h : EndsInBrace input) : input ≠ [] := by
  cases h with
  | text h => simp
  | item h _ => exact h.ne_nil

/-- Where no text is spelled, a tag opens or nothing is left. -/
theorem Spells.end_of_head? (h : Spells v bs) (hnext : ∀ next ∈ bs.head?, next.isText = false) :
    v = [] ∨ tagOpen <+: v := by
  cases h with
  | nil => exact .inl rfl
  | cons h _ => exact .inr (h.tagOpen_prefix (hnext _ rfl))

/-- A text that does not start with a tag starts with literal text. -/
theorem Spells.exists_text_cons {c : Char} (h : Spells (c :: v) bs)
    (hopen : ¬ tagOpen <+: c :: v) : ∃ content items, bs = .text content :: items := by
  cases h with
  | @cons _ _ item items h _ =>
    cases item with
    | text content => exact ⟨content, items, rfl⟩
    | echo elements => exact absurd (h.tagOpen_prefix rfl) hopen
    | openLoop header => exact absurd (h.tagOpen_prefix rfl) hopen
    | closeLoop => exact absurd (h.tagOpen_prefix rfl) hopen

/-- The last item of a text in front of the items of another. -/
theorem Spelling.spells_append (h : Spelling u item []) (k : Spells v bs)
    (hseam : ¬ (EndsInBrace u ∧ v.head? = some '$')) :
    Spells (u ++ v) (consJoined item bs) := by
  rcases consJoined_cases item bs with ⟨content, more, items, rfl, rfl, heq⟩ | ⟨hnext, heq⟩
  · rw [heq]
    obtain ⟨rest, k, hitems⟩ := k.exists_spelling
    obtain ⟨a, htext, ha, rfl⟩ := h.exists_freeText
    obtain ⟨b, htext', -, rfl⟩ := k.exists_freeText
    have hjoin := htext.join htext' fun w inside hw hspell hdollar =>
      hseam ⟨hw ▸ .text hspell, hdollar⟩
    rw [← String.ofList_append]
    exact .cons (.text hjoin (by simp [ha])) hitems
  · rw [heq]
    exact .cons (h.append fun htext _ => k.end_of_head? (hnext htext)) k

/-- **Two texts in a row have the items of both**, unless a tag opens where they meet. -/
theorem Spells.join (h : Spells u as) (k : Spells v bs)
    (hseam : ¬ (EndsInBrace u ∧ v.head? = some '$')) : Spells (u ++ v) (joinSeam as bs) := by
  induction h with
  | nil => exact k
  | @cons input rest item items h hitems ih =>
    cases hitems with
    | nil => exact h.spells_append k hseam
    | cons h' hitems =>
      have hmore := ih fun hopen => hseam ⟨.item h hopen.1, hopen.2⟩
      exact .cons (h.append fun _ hend => absurd hend h'.ne_nil) hmore

/-- A text in front of a tag is over there, and is no longer than it was. -/
theorem not_spells_of_longer {content : List Char} {more : String}
    (h : FreeText.Spelling u content []) (hmore : more ≠ "") :
    ¬ Spells (u ++ (tagOpen ++ v)) (.text (String.ofList content ++ more) :: items) := by
  intro hspells
  have htext : FreeText.Spelling (u ++ (tagOpen ++ v)) content (tagOpen ++ v) :=
    h.append fun _ => .inr (List.prefix_append _ _)
  by_cases hcontent : content = []
  · rw [hcontent] at htext
    obtain ⟨rest, hitem, -⟩ := hspells.exists_spelling
    obtain ⟨inside, hspell, hinside, -⟩ := hitem.exists_freeText
    obtain ⟨hopen, hne⟩ := not_tagOpen_prefix_of_spelling hspell hinside
    exact (tagOpen_prefix_of_spelling_nil htext).elim hne hopen
  · obtain ⟨rest, heq, -⟩ := hspells.exists_cons (.text htext hcontent)
    have htoList := congrArg String.toList (Item.text.inj (List.cons.inj heq).1)
    exact hmore (by simpa using htoList)

/-- **Where a tag opens between two texts, the items are others.** -/
theorem Spells.not_joinSeam (h : Spells u as) (k : Spells ('$' :: v) bs)
    (hbrace : EndsInBrace u) : ¬ Spells (u ++ '$' :: v) (joinSeam as bs) := by
  induction hbrace generalizing as with
  | @text w content htext =>
    have hbrace : FreeText.Spelling ['{'] ['{'] [] :=
      .plain (by decide) (by decide) (.done (.inl rfl))
    have hjoin := htext.join hbrace fun _ _ _ _ => by simp
    obtain ⟨items, rfl, hitems⟩ := h.exists_cons (.text hjoin (by simp))
    obtain rfl := hitems.eq_nil
    obtain ⟨more, items, rfl⟩ := k.exists_text_cons (by simp [tagOpen])
    have hinput : w ++ ['{'] ++ '$' :: v = w ++ (tagOpen ++ v) := by simp [tagOpen]
    have hlonger : String.ofList (content ++ ['{']) ++ more =
        String.ofList content ++ ("\x7b" ++ more) := by
      rw [String.ofList_append, String.append_assoc]
    rw [hinput, joinSeam, consJoined, hlonger]
    exact not_spells_of_longer htext (by simp)
  | @item input rest item hspell hrest ih =>
    obtain ⟨items, rfl, hitems⟩ := h.exists_cons hspell
    have hne : items ≠ [] := by
      rintro rfl
      cases hitems
      exact hrest.ne_nil rfl
    rw [joinSeam_cons hne]
    intro hwhole
    obtain ⟨more, hmore, hspells⟩ := hwhole.exists_cons
      (hspell.append fun _ hend => absurd hend hrest.ne_nil)
    obtain rfl := (List.cons.inj hmore).2
    exact ih hitems hspells

/-- The canonical text of a tag spells it in front of anything. -/
theorem spelling_canonicalText_append (tag : Item) (hwell : tag.WellFormed)
    (htag : tag.isText = false) (rest : List Char) :
    Spelling (tag.canonicalText ++ rest) tag rest := by
  refine spelling_canonicalText hwell ?_ (by simp [htag])
  rintro rfl
  exact absurd htag (by simp [isText])

end Item

/-! ## Trees -/

namespace Node

/-- The trees of the first list and then those of the second, with two texts that meet
joined. -/
def joinSeam : List Node → List Node → List Node
  | [], bs => bs
  | [node], bs => consJoined node bs
  | node :: next :: nodes, bs => node :: joinSeam (next :: nodes) bs

variable {as bs : List Node}

theorem itemsBelow_ne_nil (hfree : DocumentFreeBelow as) (hne : as ≠ []) : itemsBelow as ≠ [] := by
  cases as with
  | nil => exact absurd rfl hne
  | cons node nodes =>
    cases node with
    | document children => exact hfree.1.elim
    | text content => simp [items]
    | forLoop header children => simp [items]
    | echo elements => simp [items]

theorem consJoined_spec {node : Node} (hnode : DocumentFree node) (hbs : DocumentFreeBelow bs) :
    DocumentFreeBelow (consJoined node bs) ∧
      itemsBelow (consJoined node bs) = Item.joinSeam (items node) (itemsBelow bs) := by
  cases node with
  | document children => exact hnode.elim
  | text content => exact consJoined_text content hbs
  | forLoop header children =>
    refine ⟨⟨hnode, hbs⟩, ?_⟩
    -- the loop ends in a tag, and nothing is joined to that
    rw [items, ← List.cons_append, Item.joinSeam_append _ (List.cons_ne_nil _ _)]
    simp [consJoined, items, Item.joinSeam, Item.consJoined]
  | echo elements => exact ⟨⟨trivial, hbs⟩, rfl⟩

/-- On the walk of the trees, their items are joined. -/
theorem joinSeam_spec (has : DocumentFreeBelow as) (hbs : DocumentFreeBelow bs) :
    DocumentFreeBelow (joinSeam as bs) ∧
      itemsBelow (joinSeam as bs) = Item.joinSeam (itemsBelow as) (itemsBelow bs) := by
  induction as with
  | nil => exact ⟨hbs, rfl⟩
  | cons node nodes ih =>
    cases nodes with
    | nil =>
      rw [itemsBelow_cons, itemsBelow_nil, List.append_nil]
      exact consJoined_spec has.1 hbs
    | cons next nodes =>
      obtain ⟨hfree, hitems⟩ := ih has.2
      refine ⟨⟨has.1, hfree⟩, ?_⟩
      have hne := itemsBelow_ne_nil has.2 (List.cons_ne_nil _ _)
      rw [itemsBelow_cons node (next :: nodes), Item.joinSeam_append _ hne, ← hitems]
      rfl

theorem nestingBelow_consJoined (node : Node) (bs : List Node) :
    nestingBelow (consJoined node bs) = max (nesting node) (nestingBelow bs) := by
  cases node with
  | text content =>
    cases bs with
    | nil => rfl
    | cons next nodes => cases next <;> simp [consJoined, nestingBelow, nesting]
  | document children => rfl
  | forLoop header children => rfl
  | echo elements => rfl

/-- Loops lie as deep as they do in one of the two lists. -/
theorem nestingBelow_joinSeam (as bs : List Node) :
    nestingBelow (joinSeam as bs) = max (nestingBelow as) (nestingBelow bs) := by
  induction as with
  | nil => simp [joinSeam, nestingBelow]
  | cons node nodes ih =>
    cases nodes with
    | nil =>
      rw [joinSeam, nestingBelow_consJoined, nestingBelow, nestingBelow, Nat.max_zero]
    | cons next nodes =>
      rw [joinSeam, nestingBelow, ih, ← Nat.max_assoc]
      rfl

end Node

/-! ## Documents -/

variable {document : String} {tree : Node} {children children' : List Node}

/-- A document derives a tree when it is the items on the walk of the tree. -/
theorem derives_iff_spells : Derives document tree ↔
    ∃ children, tree = .document children ∧ DocumentFreeBelow children ∧
      Item.Spells document.toList (itemsBelow children) := by
  rw [derives_iff_exists_run]
  constructor
  · rintro ⟨children, items, last, rfl, hfree, hvalues, hlongest, hend⟩
    have hspells := hlongest.run.spells hend
    rw [hvalues] at hspells
    exact ⟨children, rfl, hfree, hspells⟩
  · rintro ⟨children, rfl, hfree, hspells⟩
    obtain ⟨items, last, hrun, hend, hvalues⟩ := hspells.exists_run (c := .ofString document) rfl
    exact ⟨children, items, last, rfl, hfree, hvalues,
      ⟨hrun, Item.stops_of_rest_eq_nil hend⟩, hend⟩

/-- **Two documents in a row** are the trees of both exactly when no tag opens where they
meet. -/
theorem derives_append_iff {front back : String} (h : Derives front (.document children))
    (k : Derives back (.document children')) :
    Derives (front ++ back) (.document (Node.joinSeam children children')) ↔
      ¬ (Item.EndsInBrace front.toList ∧ back.toList.head? = some '$') := by
  obtain ⟨as, heq, has, hfront⟩ := derives_iff_spells.mp h
  obtain ⟨bs, heq', hbs, hback⟩ := derives_iff_spells.mp k
  obtain rfl := Node.document.inj heq
  obtain rfl := Node.document.inj heq'
  obtain ⟨hfree, hitems⟩ := Node.joinSeam_spec has hbs
  constructor
  · rintro hwhole ⟨hbrace, hdollar⟩
    obtain ⟨nodes, hnodes, -, hspells⟩ := derives_iff_spells.mp hwhole
    obtain rfl := Node.document.inj hnodes
    obtain ⟨v, hv⟩ := List.head?_eq_some_iff.mp hdollar
    rw [String.toList_append, hv, hitems] at hspells
    rw [hv] at hback
    exact hfront.not_joinSeam hback hbrace hspells
  · intro hseam
    refine derives_iff_spells.mpr ⟨_, rfl, hfree, ?_⟩
    rw [String.toList_append, hitems]
    exact hfront.join hback hseam

/-- **A document between the tags of a loop** is the body of the loop. -/
theorem Derives.forLoop {header : LoopHeader} (h : Derives document (.document children))
    (hheader : header.WellFormed) :
    Derives (header.tagText ++ document ++ endTagText) (.document [.forLoop header children]) := by
  obtain ⟨nodes, heq, hfree, hspells⟩ := derives_iff_spells.mp h
  obtain rfl := Node.document.inj heq
  have hend : Item.Spells endTagText.toList [.closeLoop] := by
    have htag := Item.spelling_canonicalText_append .closeLoop trivial rfl []
    rw [List.append_nil] at htag
    exact .cons htag .nil
  have hbody := hspells.join hend fun hseam => absurd hseam.2 (by decide)
  rw [Item.joinSeam_cons_of_not_isText rfl] at hbody
  have hopen := Item.spelling_canonicalText_append (.openLoop header) hheader rfl
    (document.toList ++ endTagText.toList)
  refine derives_iff_spells.mpr ⟨_, rfl, ⟨hfree, trivial⟩, ?_⟩
  rw [String.toList_append, String.toList_append, List.append_assoc, itemsBelow, itemsBelow,
    List.append_nil]
  exact .cons hopen hbody

/-- **Reading is compositional.**  Two documents that are read are read in a row as well, as
the trees of both with the texts between them joined; the only exception is a brace that is
not escaped in front of a dollar sign, and that is always one.  A document that is read is
read as the body of any loop around it, when one more loop may be open. -/
theorem parse_compositional (limit : Nat) :
    (∀ front back children children', parse front ⟨limit⟩ = .ok (.document children) →
      parse back ⟨limit⟩ = .ok (.document children') →
      (parse (front ++ back) ⟨limit⟩ = .ok (.document (Node.joinSeam children children')) ↔
        ¬ (Item.EndsInBrace front.toList ∧ back.toList.head? = some '$'))) ∧
    (∀ document children header, parse document ⟨limit⟩ = .ok (.document children) →
      header.WellFormed →
      parse (header.tagText ++ document ++ endTagText) ⟨limit + 1⟩ =
        .ok (.document [.forLoop header children])) := by
  constructor
  · intro front back children children' hfront hback
    obtain ⟨hderives, hlimit⟩ := derives_of_parse hfront
    obtain ⟨hderives', hlimit'⟩ := derives_of_parse hback
    rw [← derives_append_iff hderives hderives']
    refine ⟨fun h => (derives_of_parse h).1, fun h => parse_of_derives h ?_⟩
    rw [Node.nesting, Node.nestingBelow_joinSeam]
    exact Nat.max_le.mpr ⟨hlimit, hlimit'⟩
  · intro document children header hparse hheader
    obtain ⟨hderives, hlimit⟩ := derives_of_parse hparse
    refine parse_of_derives (hderives.forLoop hheader) ?_
    rw [Node.nesting, nestingBelow, nestingBelow, Node.nesting, Nat.max_zero]
    exact Nat.succ_le_succ hlimit

/-- A document that ends in such a brace, in front of one that starts with a letter, and as
the body of a loop. -/
theorem parse_compositional_of_brace :
    parse "a\x7b" ⟨0⟩ = .ok (.document [.text "a\x7b"]) ∧
      parse "b" ⟨0⟩ = .ok (.document [.text "b"]) ∧
      parse ("a\x7b" ++ "b") ⟨0⟩ = .ok (.document [.text "a\x7bb"]) ∧
      LoopHeader.WellFormed ⟨.var "i", .integer 0, .integer 3, none⟩ ∧
      parse (LoopHeader.tagText ⟨.var "i", .integer 0, .integer 3, none⟩ ++ "a\x7b" ++
        endTagText) ⟨1⟩ =
        .ok (.document [.forLoop ⟨.var "i", .integer 0, .integer 3, none⟩ [.text "a\x7b"]]) := by
  have hbrace : Item.Spelling "a\x7b".toList (.text "a\x7b") [] :=
    .text (.plain (by decide) (by decide) (.plain (by decide) (by decide) (.done (.inl rfl))))
      (by simp)
  have hletter : Item.Spelling "b".toList (.text "b") [] :=
    .text (.plain (by decide) (by decide) (.done (.inl rfl))) (by simp)
  have hfront : parse "a\x7b" ⟨0⟩ = .ok (.document [.text "a\x7b"]) :=
    parse_of_derives ⟨_, .text hbrace .nil, rfl⟩ (by decide)
  have hback : parse "b" ⟨0⟩ = .ok (.document [.text "b"]) :=
    parse_of_derives ⟨_, .text hletter .nil, rfl⟩ (by decide)
  have hloop : LoopHeader.WellFormed ⟨.var "i", .integer 0, .integer 3, none⟩ := by
    refine ⟨⟨rfl, rfl, rfl, by simp⟩, ?_⟩
    simp only [LoopHeader.elements, Option.toList_none, List.mem_cons, List.not_mem_nil, or_false]
    rintro element (rfl | rfl | rfl)
    · show isIdentifier "i".toList = true
      decide
    · trivial
    · trivial
  have hrow := ((parse_compositional 0).1 _ _ _ _ hfront hback).mpr (by simp)
  exact ⟨hfront, hback, hrow, hloop, (parse_compositional 0).2 _ _ _ hfront hloop⟩

end TagTemplate
