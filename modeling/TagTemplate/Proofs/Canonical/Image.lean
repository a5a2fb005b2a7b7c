import TagTemplate.Proofs.Canonical.RoundTrip

/-!
# The trees that documents are read as

A tree may be built in any shape, but not every tree comes out of a document.  What does
come out is a document node with no other one below it, with texts that hold something and
do not touch, with tags whose elements read back, and with no more loops on a path than the
limit allows.  `Node.IsNormal` says this of the tree itself.

Nothing else is to be known of it: every such tree is read from some document
(`exists_parse_eq_ok_iff`), for instance from its own canonical text.

* `Item.apart_append_cons`: what stands before a tag and what stands after it are apart
  independently.
* `Node.textsApartBelow_iff`: the texts of trees are apart when the items on their walk are.
-/

namespace TagTemplate

open Node (itemsBelow DocumentFreeBelow canonicalTexts)

namespace Item

/-- Texts do not meet across a tag. -/
theorem apart_append_cons {tag : Item} (h : tag.isText = false) {as bs : List Item} :
    Apart (as ++ tag :: bs) ↔ Apart as ∧ Apart bs := by
  have htag : tag ≠ .text "" := by
    rintro rfl
    exact absurd h (by simp [isText])
  induction as with
  | nil => simp [Apart, htag, h]
  | cons item as ih =>
    have hhead : (∀ next ∈ (as ++ tag :: bs).head?, next.isText = false) ↔
        ∀ next ∈ as.head?, next.isText = false := by
      cases as <;> simp [h]
    simp only [List.cons_append, Apart, ih, hhead, and_assoc]

end Item

namespace Node

mutual

/-- No text in the tree is empty, and no two texts are neighbours below the same node. -/
def TextsApart : Node → Prop
  | document children => TextsApartBelow children
  | text content => content ≠ ""
  | forLoop _ children => TextsApartBelow children
  | echo _ => True

/-- No text in the trees is empty, and no two texts are neighbours, neither among the trees
nor below them. -/
def TextsApartBelow : List Node → Prop
  | [] => True
  | node :: nodes =>
      TextsApart node ∧ (node.isText = true → ∀ next ∈ nodes.head?, next.isText = false) ∧
        TextsApartBelow nodes

end

/-- A tree of the kind that documents are read as, when so many loops may be open. -/
structure IsNormal (limit : Nat) (tree : Node) : Prop where
  isDocument : tree.isDocument = true
  documentFreeBelow : DocumentFreeBelow tree.children
  textsApart : tree.TextsApart
  wellFormed : tree.WellFormed
  nesting_le : tree.nesting ≤ limit

/-- The first item on a walk is a text when the first tree is. -/
theorem head?_itemsBelow_isText {nodes : List Node} (hfree : DocumentFreeBelow nodes) :
    (∀ next ∈ (itemsBelow nodes).head?, next.isText = false) ↔
      ∀ next ∈ nodes.head?, next.isText = false := by
  cases nodes with
  | nil => simp
  | cons node nodes =>
    cases node with
    | document children => exact hfree.1.elim
    | text content => simp [items, Item.isText, isText]
    | forLoop header children => simp [items, Item.isText, isText]
    | echo elements => simp [items, Item.isText, isText]

/-- **The texts of trees are apart when the items on their walk are.** -/
theorem textsApartBelow_iff {nodes : List Node} (hfree : DocumentFreeBelow nodes) :
    TextsApartBelow nodes ↔ Item.Apart (itemsBelow nodes) := by
  induction nodes using forest_induction with
  | nil => exact Iff.rfl
  | text content nodes ih =>
    have hne : content ≠ "" ↔ Item.text content ≠ .text "" := by simp
    have hnext : (isText (.text content) = true → ∀ next ∈ nodes.head?, next.isText = false) ↔
        ((Item.text content).isText = true →
          ∀ next ∈ (itemsBelow nodes).head?, next.isText = false) := by
      rw [head?_itemsBelow_isText hfree.2]
      exact Iff.rfl
    exact and_congr hne (and_congr hnext (ih hfree.2))
  | echo elements nodes ih =>
    simp [TextsApartBelow, TextsApart, isText, items, Item.Apart, Item.isText, ih hfree.2]
  | forLoop header children nodes ihc ih =>
    -- the walk of the loop is its header, the walk of the children, and an `END`
    have hwalk : itemsBelow (.forLoop header children :: nodes) =
        [] ++ .openLoop header :: (itemsBelow children ++ .closeLoop :: itemsBelow nodes) := by
      simp [items]
    rw [hwalk, Item.apart_append_cons rfl, Item.apart_append_cons rfl, ← ihc hfree.1,
      ← ih hfree.2]
    simp [TextsApartBelow, TextsApart, isText, Item.Apart]
  | document children nodes ihc ih => exact hfree.1.elim

end Node

variable {document : String} {limit : Nat} {tree : Node}

/-- What is read is normal. -/
theorem isNormal_of_parse (h : parse document ⟨limit⟩ = .ok tree) : tree.IsNormal limit := by
  obtain ⟨hderives, hlimit⟩ := derives_of_parse h
  obtain ⟨children, items, last, rfl, hfree, hvalues, hlongest, -⟩ :=
    derives_iff_exists_run.mp hderives
  have hwell := hlongest.run.wellFormed
  have hapart := hlongest.run.apart
  rw [hvalues] at hwell hapart
  exact ⟨rfl, hfree, (Node.textsApartBelow_iff hfree).mpr hapart,
    Node.wellFormedBelow_iff.mpr hwell, hlimit⟩

/-- A normal tree is read from its canonical text. -/
theorem parse_of_isNormal (h : tree.IsNormal limit) :
    parse tree.canonicalText ⟨limit⟩ = .ok tree := by
  obtain ⟨hdocument, hfree, hapart, hwell, hlimit⟩ := h
  cases tree with
  | text content => exact absurd hdocument (by simp [Node.isDocument])
  | forLoop header children => exact absurd hdocument (by simp [Node.isDocument])
  | echo elements => exact absurd hdocument (by simp [Node.isDocument])
  | document children =>
    have hderives := derives_of_apart (Node.wellFormedBelow_iff.mp hwell)
      ((Node.textsApartBelow_iff hfree).mp hapart) hfree
    exact parse_of_derives hderives hlimit

/-- **Exactly the normal trees are read from documents.** -/
theorem exists_parse_eq_ok_iff (tree : Node) (limit : Nat) :
    (∃ document, parse document ⟨limit⟩ = .ok tree) ↔ tree.IsNormal limit :=
  ⟨fun ⟨_, h⟩ => isNormal_of_parse h, fun h => ⟨_, parse_of_isNormal h⟩⟩

end TagTemplate
