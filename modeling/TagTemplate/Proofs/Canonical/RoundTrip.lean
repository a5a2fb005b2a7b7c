import TagTemplate.Proofs.Acceptance
import TagTemplate.Proofs.Canonical.NormalForm

/-!
# Writing and reading back

Well-formed trees of any shape are written and read back as their normal form
(`parse_canonicalTexts`).  A tree that was read is well-formed and in normal form already,
so it comes back as it is, and its canonical text is a fixed point of reading and writing
(`parse_canonicalText`).

Both come from one statement, `derives_of_apart`: trees with well-formed items that are
apart are derived from their own canonical text.
-/

namespace TagTemplate

open Node (itemsBelow DocumentFreeBelow canonicalTexts nestingBelow normalForm)

namespace Node

mutual

/-- The elements of the tags of a tree read back, and its loops have headers of loops. -/
def WellFormed : Node → Prop
  | document children => WellFormedBelow children
  | text _ => True
  | forLoop header children => header.WellFormed ∧ WellFormedBelow children
  | echo elements => ∀ element ∈ elements, element.WellFormed

/-- All the trees are well-formed. -/
def WellFormedBelow : List Node → Prop
  | [] => True
  | node :: nodes => WellFormed node ∧ WellFormedBelow nodes

end

/-- Trees are well-formed when the items on their walk are. -/
theorem wellFormedBelow_iff {nodes : List Node} :
    WellFormedBelow nodes ↔ ∀ item ∈ itemsBelow nodes, item.WellFormed := by
  induction nodes using forest_induction with
  | nil => simp [WellFormedBelow]
  | text content nodes ih => simp [WellFormedBelow, WellFormed, items, ih, Item.WellFormed]
  | echo elements nodes ih => simp [WellFormedBelow, WellFormed, items, ih, Item.WellFormed]
  | forLoop header children nodes ihc ih =>
    simp [WellFormedBelow, WellFormed, items, ih, ihc, Item.WellFormed, or_imp, forall_and,
      and_assoc]
  | document children nodes ihc ih =>
    simp [WellFormedBelow, WellFormed, items, ih, ihc, or_imp, forall_and]

end Node

variable {document : String} {limit : Nat} {tree : Node} {nodes : List Node}

/-- The canonical text of a document is that of its children. -/
theorem canonicalText_document (nodes : List Node) :
    Node.canonicalText (.document nodes) = canonicalTexts nodes := rfl

/-- **Trees in normal form are derived from their canonical text.** -/
theorem derives_of_apart (hwell : ∀ item ∈ itemsBelow nodes, item.WellFormed)
    (hapart : Item.Apart (itemsBelow nodes)) (hfree : DocumentFreeBelow nodes) :
    Derives (canonicalTexts nodes) (.document nodes) := by
  have hrest : (Cursor.ofString (canonicalTexts nodes)).rest =
      (itemsBelow nodes).flatMap Item.canonicalText := Node.toList_canonicalTexts nodes
  obtain ⟨located, last, hrun, hend, hvalues⟩ := Item.exists_run_of_apart hwell hapart hrest
  exact derives_iff_exists_run.mpr ⟨nodes, located, last, rfl, hfree, hvalues,
    ⟨hrun, Item.stops_of_rest_eq_nil hend⟩, hend⟩

/-- What is derived is in normal form, and is derived from its canonical text as well. -/
theorem Derives.derives_canonicalText (h : Derives document tree) :
    Derives tree.canonicalText tree := by
  obtain ⟨children, items, last, rfl, hfree, hvalues, hlongest, -⟩ :=
    derives_iff_exists_run.mp h
  have hwell := hlongest.run.wellFormed
  have hapart := hlongest.run.apart
  rw [hvalues] at hwell hapart
  rw [canonicalText_document]
  exact derives_of_apart hwell hapart hfree

/-- **The canonical text is a fixed point.**  A tree that was read is read again, exactly
as it is, from its canonical text, which is therefore its canonical text once more. -/
theorem parse_canonicalText (h : parse document ⟨limit⟩ = .ok tree) :
    parse tree.canonicalText ⟨limit⟩ = .ok tree ∧
      ∀ again, parse tree.canonicalText ⟨limit⟩ = .ok again →
        again.canonicalText = tree.canonicalText := by
  obtain ⟨hderives, hlimit⟩ := derives_of_parse h
  have hagain := parse_of_derives hderives.derives_canonicalText hlimit
  refine ⟨hagain, fun again hparse => ?_⟩
  rw [hagain] at hparse
  rw [Except.ok.inj hparse]

/-- A document in another spelling than the canonical one: a brace that is not escaped
stands right in front of a tag, and the tag is an echo tag with nothing in it. -/
theorem parse_canonicalText_of_brace :
    parse "a\x7b\x7b$=$\x7d" ⟨0⟩ = .ok (.document [.text "a\x7b", .echo []]) ∧
      parse (Node.canonicalText (.document [.text "a\x7b", .echo []])) ⟨0⟩ =
        .ok (.document [.text "a\x7b", .echo []]) := by
  have htext : Item.Spelling "a\x7b\x7b$=$\x7d".toList (.text "a\x7b") "\x7b$=$\x7d".toList := by
    refine .text (.plain (by decide) (by decide) (.plain (by decide) (by decide) (.done ?_)))
      (by simp)
    exact .inr ⟨"=$\x7d".toList, rfl⟩
  have hecho : Item.Spelling "\x7b$=$\x7d".toList (.echo []) [] :=
    .echo (Element.blanks_refl _) (.close (Element.blanks_refl _))
  have hparse : parse "a\x7b\x7b$=$\x7d" ⟨0⟩ = .ok (.document [.text "a\x7b", .echo []]) :=
    parse_of_derives ⟨_, .text htext (.echo hecho .nil), rfl⟩ (by decide)
  exact ⟨hparse, (parse_canonicalText hparse).1⟩

/-- **Writing and reading back gives the normal form**, which has the same canonical
text. -/
theorem parse_canonicalTexts (hwell : Node.WellFormedBelow nodes)
    (hlimit : nestingBelow nodes ≤ limit) :
    parse (canonicalTexts nodes) ⟨limit⟩ = .ok (.document (normalForm nodes)) ∧
      Node.canonicalText (.document (normalForm nodes)) = canonicalTexts nodes := by
  have htexts := Node.canonicalTexts_normalForm nodes
  have hnormal : ∀ item ∈ itemsBelow (normalForm nodes), item.WellFormed := by
    rw [Node.itemsBelow_normalForm]
    refine Item.wellFormed_of_mem_joinTexts fun item hitem => ?_
    exact Node.wellFormedBelow_iff.mp hwell item (List.mem_filter.mp hitem).1
  have hderives := derives_of_apart hnormal (Node.apart_normalForm nodes)
    (Node.documentFreeBelow_normalForm nodes)
  rw [htexts] at hderives
  refine ⟨parse_of_derives hderives ?_, htexts⟩
  exact (Node.nestingBelow_normalForm_le_iff nodes).mpr hlimit

/-- A document among other trees, an empty text, and two texts that meet, in front of a loop
that holds an operator. -/
theorem parse_canonicalTexts_of_mixed :
    Node.WellFormedBelow [.document [.text "a", .text ""], .text "\x7b",
        .forLoop ⟨.var "i", .integer 0, .integer 3, none⟩ [.echo [.operator '-']]] ∧
      nestingBelow [.document [.text "a", .text ""], .text "\x7b",
        .forLoop ⟨.var "i", .integer 0, .integer 3, none⟩ [.echo [.operator '-']]] ≤ 1 ∧
      parse (canonicalTexts [.document [.text "a", .text ""], .text "\x7b",
        .forLoop ⟨.var "i", .integer 0, .integer 3, none⟩ [.echo [.operator '-']]]) ⟨1⟩ =
        .ok (.document [.text "a\x7b",
          .forLoop ⟨.var "i", .integer 0, .integer 3, none⟩ [.echo [.operator '-']]]) := by
  have hloop : LoopHeader.WellFormed ⟨.var "i", .integer 0, .integer 3, none⟩ := by
    refine ⟨⟨rfl, rfl, rfl, by simp⟩, ?_⟩
    simp only [LoopHeader.elements, Option.toList_none, List.mem_cons, List.not_mem_nil, or_false]
    rintro element (rfl | rfl | rfl)
    · show isIdentifier "i".toList = true
      decide
    · trivial
    · trivial
  have hwell : Node.WellFormedBelow [.document [.text "a", .text ""], .text "\x7b",
      .forLoop ⟨.var "i", .integer 0, .integer 3, none⟩ [.echo [.operator '-']]] := by
    refine ⟨⟨trivial, trivial, trivial⟩, trivial, ⟨hloop, ?_, trivial⟩, trivial⟩
    simp only [Node.WellFormed, List.mem_singleton]
    rintro element rfl
    show '-' ∈ operatorSymbols
    decide
  exact ⟨hwell, by decide, (parse_canonicalTexts hwell (by decide)).1⟩

end TagTemplate
