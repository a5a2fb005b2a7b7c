import TagTemplate.Proofs.Canonical.Items

/-!
# The normal form of trees

Trees may be built in any shape, and three kinds of shape leave no trace in a text: a
document node has no tags of its own, an empty text has no characters, and two texts in
a row read like one.  The normal form takes them away in this order, at every depth:

* `Node.spliceDocuments` puts the children of a document in its place.
* `Node.dropEmptyTexts` leaves out empty texts.
* `Node.joinTexts` makes one text of texts that follow one another.

On the walk of the trees the first step changes nothing, and the other two do to the items
what they do to the trees (`Node.itemsBelow_normalForm`).  So the normal form has the same
canonical text (`canonicalTexts_normalForm`), its items are apart (`apart_normalForm`), and
its loops lie as they did (`nestingBelow_normalForm_le_iff`).
-/

namespace TagTemplate

namespace Node

mutual

/-- The node without document nodes: the children of a document stand in its place. -/
def splice : Node → List Node
  | document children => spliceDocuments children
  | text content => [.text content]
  | forLoop header children => [.forLoop header (spliceDocuments children)]
  | echo elements => [.echo elements]

/-- The nodes, with the children of every document in its place. -/
def spliceDocuments : List Node → List Node
  | [] => []
  | node :: nodes => splice node ++ spliceDocuments nodes

end

mutual

/-- The node without empty texts: nothing is left of a text that is empty itself. -/
def dropEmpty : Node → List Node
  | document children => [.document (dropEmptyTexts children)]
  | text content => if content = "" then [] else [.text content]
  | forLoop header children => [.forLoop header (dropEmptyTexts children)]
  | echo elements => [.echo elements]

/-- The nodes without empty texts. -/
def dropEmptyTexts : List Node → List Node
  | [] => []
  | node :: nodes => dropEmpty node ++ dropEmptyTexts nodes

end

/-- The node in front of the others, with two texts that meet joined. -/
def consJoined : Node → List Node → List Node
  | text content, text more :: nodes => .text (content ++ more) :: nodes
  | node, nodes => node :: nodes

mutual

/-- The node with the texts in it joined. -/
def joinInside : Node → Node
  | document children => .document (joinTexts children)
  | text content => .text content
  | forLoop header children => .forLoop header (joinTexts children)
  | echo elements => .echo elements

/-- The nodes with texts that follow one another joined. -/
def joinTexts : List Node → List Node
  | [] => []
  | node :: nodes => consJoined (joinInside node) (joinTexts nodes)

end

/-- The normal form of trees. -/
def normalForm (nodes : List Node) : List Node :=
  joinTexts (dropEmptyTexts (spliceDocuments nodes))

end Node

/-! ## Items -/

namespace Item

/-- The item in front of the others, with two texts that meet joined. -/
def consJoined : Item → List Item → List Item
  | text content, text more :: items => .text (content ++ more) :: items
  | item, items => item :: items

/-- The items with texts that follow one another joined. -/
def joinTexts : List Item → List Item
  | [] => []
  | item :: items => consJoined item (joinTexts items)

variable {item : Item} {items : List Item}

/-- Either two texts meet and are joined, or the item is put in front. -/
theorem consJoined_cases (item : Item) (items : List Item) :
    (∃ content more rest, item = .text content ∧ items = .text more :: rest ∧
      consJoined item items = .text (content ++ more) :: rest) ∨
    ((item.isText = true → ∀ next ∈ items.head?, next.isText = false) ∧
      consJoined item items = item :: items) := by
  cases item with
  | echo elements => exact .inr ⟨fun h => absurd h (by simp [isText]), rfl⟩
  | openLoop header => exact .inr ⟨fun h => absurd h (by simp [isText]), rfl⟩
  | closeLoop => exact .inr ⟨fun h => absurd h (by simp [isText]), rfl⟩
  | text content =>
    cases items with
    | nil => exact .inr ⟨by simp, rfl⟩
    | cons next items =>
      cases next with
      | text more => exact .inl ⟨content, more, items, rfl, rfl, rfl⟩
      | echo elements => exact .inr ⟨by simp [isText], rfl⟩
      | openLoop header => exact .inr ⟨by simp [isText], rfl⟩
      | closeLoop => exact .inr ⟨by simp [isText], rfl⟩

theorem apart_consJoined (hne : item ≠ .text "") (h : Apart items) :
    Apart (consJoined item items) := by
  rcases consJoined_cases item items with ⟨content, more, rest, rfl, rfl, heq⟩ | ⟨hnext, heq⟩
  · rw [heq]
    refine ⟨fun hempty => hne ?_, h.2.1, h.2.2⟩
    rw [(String.append_eq_empty_iff.mp (Item.text.inj hempty)).1]
  · rw [heq]
    exact ⟨hne, hnext, h⟩

/-- Texts that are joined are apart. -/
theorem apart_joinTexts (h : ∀ item ∈ items, item ≠ .text "") : Apart (joinTexts items) := by
  induction items with
  | nil => trivial
  | cons item items ih =>
    exact apart_consJoined (h item List.mem_cons_self)
      (ih fun i hi => h i (List.mem_cons_of_mem _ hi))

theorem flatMap_consJoined (item : Item) (items : List Item) :
    (consJoined item items).flatMap canonicalText =
      item.canonicalText ++ items.flatMap canonicalText := by
  rcases consJoined_cases item items with ⟨content, more, rest, rfl, rfl, heq⟩ | ⟨-, heq⟩
  · rw [heq]
    simp [canonicalText, FreeText.encode]
  · rw [heq, List.flatMap_cons]

/-- To join texts does not change the canonical text. -/
theorem flatMap_joinTexts (items : List Item) :
    (joinTexts items).flatMap canonicalText = items.flatMap canonicalText := by
  induction items with
  | nil => rfl
  | cons item items ih => rw [joinTexts, flatMap_consJoined, ih, List.flatMap_cons]

/-- To leave out empty texts does not change the canonical text. -/
theorem flatMap_filter_ne_empty (items : List Item) :
    (items.filter (· ≠ .text "")).flatMap canonicalText = items.flatMap canonicalText := by
  induction items with
  | nil => rfl
  | cons item items ih =>
    by_cases h : item = .text ""
    · rw [List.filter_cons_of_neg (by simp [h]), ih, List.flatMap_cons, h]
      rfl
    · rw [List.filter_cons_of_pos (by simp [h]), List.flatMap_cons, List.flatMap_cons, ih]

theorem wellFormed_of_mem_joinTexts (h : ∀ item ∈ items, item.WellFormed) :
    ∀ item ∈ joinTexts items, item.WellFormed := by
  induction items with
  | nil => exact h
  | cons first items ih =>
    have hmore := ih fun i hi => h i (List.mem_cons_of_mem _ hi)
    intro item hitem
    rw [joinTexts] at hitem
    rcases consJoined_cases first (joinTexts items) with
      ⟨content, more, rest, -, hrest, heq⟩ | ⟨-, heq⟩
    · rw [heq] at hitem
      rcases List.mem_cons.mp hitem with rfl | hitem
      · trivial
      · exact hmore item (by rw [hrest]; exact List.mem_cons_of_mem _ hitem)
    · rw [heq] at hitem
      rcases List.mem_cons.mp hitem with rfl | hitem
      · exact h item List.mem_cons_self
      · exact hmore item hitem

theorem filter_isBracket_joinTexts (items : List Item) :
    (joinTexts items).filter isBracket = items.filter isBracket := by
  induction items with
  | nil => rfl
  | cons item items ih =>
    rw [joinTexts]
    rcases consJoined_cases item (joinTexts items) with
      ⟨content, more, rest, rfl, hrest, heq⟩ | ⟨-, heq⟩
    · rw [heq, List.filter_cons_of_neg (by simp [isBracket]),
        List.filter_cons_of_neg (by simp [isBracket]), ← ih, hrest,
        List.filter_cons_of_neg (by simp [isBracket])]
    · rw [heq, List.filter_cons, List.filter_cons, ih]

theorem filter_isBracket_filter_ne_empty (items : List Item) :
    (items.filter (· ≠ .text "")).filter isBracket = items.filter isBracket := by
  rw [List.filter_filter]
  refine List.filter_congr fun item _ => ?_
  cases item <;> simp [isBracket]

/-- Texts do not join across a tag. -/
theorem joinTexts_append_cons {tag : Item} (h : tag.isText = false) (as bs : List Item) :
    joinTexts (as ++ tag :: bs) = joinTexts as ++ tag :: joinTexts bs := by
  have hcons : ∀ (item : Item) (front back : List Item),
      consJoined item (front ++ tag :: back) = consJoined item front ++ tag :: back := by
    intro item front back
    cases item with
    | text content =>
      cases front with
      | nil =>
        cases tag with
        | text more => exact absurd h (by simp [isText])
        | _ => rfl
      | cons next front => cases next <;> rfl
    | _ => rfl
  induction as with
  | nil =>
    cases tag with
    | text content => exact absurd h (by simp [isText])
    | _ => rfl
  | cons item as ih => rw [List.cons_append, joinTexts, joinTexts, ih, hcons]

end Item

/-! ## Trees -/

namespace Node

/-- Without document nodes the walk is the same. -/
theorem spliceDocuments_spec (nodes : List Node) : DocumentFreeBelow (spliceDocuments nodes) ∧
    itemsBelow (spliceDocuments nodes) = itemsBelow nodes := by
  induction nodes using forest_induction with
  | nil => exact ⟨trivial, rfl⟩
  | text content nodes ih =>
    exact ⟨⟨trivial, ih.1⟩, congrArg (Item.text content :: ·) ih.2⟩
  | echo elements nodes ih =>
    exact ⟨⟨trivial, ih.1⟩, congrArg (Item.echo elements :: ·) ih.2⟩
  | forLoop header children nodes ihc ih =>
    refine ⟨⟨ihc.1, ih.1⟩, ?_⟩
    rw [spliceDocuments, splice, List.singleton_append, itemsBelow_cons, itemsBelow_cons, items,
      items, ihc.2, ih.2]
  | document children nodes ihc ih =>
    rw [spliceDocuments, splice, documentFreeBelow_append, itemsBelow_append, itemsBelow_cons,
      items, ihc.2, ih.2]
    exact ⟨⟨ihc.1, ih.1⟩, rfl⟩

/-- Without empty texts the walk has no empty texts, and is the same otherwise. -/
theorem dropEmptyTexts_spec {nodes : List Node} (h : DocumentFreeBelow nodes) :
    DocumentFreeBelow (dropEmptyTexts nodes) ∧
      itemsBelow (dropEmptyTexts nodes) = (itemsBelow nodes).filter (· ≠ .text "") := by
  induction nodes using forest_induction with
  | nil => exact ⟨trivial, rfl⟩
  | text content nodes ih =>
    obtain ⟨hfree, hitems⟩ := ih h.2
    by_cases hcontent : content = ""
    · simp [dropEmptyTexts, dropEmpty, hcontent, items, hfree, hitems]
    · simp [dropEmptyTexts, dropEmpty, hcontent, items, hfree, hitems, DocumentFree]
  | echo elements nodes ih =>
    obtain ⟨hfree, hitems⟩ := ih h.2
    simp [dropEmptyTexts, dropEmpty, items, hfree, hitems, DocumentFree]
  | forLoop header children nodes ihc ih =>
    obtain ⟨hfree, hitems⟩ := ih h.2
    obtain ⟨hfreec, hitemsc⟩ := ihc h.1
    simp [dropEmptyTexts, dropEmpty, items, hfree, hitems, hfreec, hitemsc, DocumentFree]
  | document children nodes ihc ih => exact h.1.elim

theorem consJoined_text {nodes : List Node} (content : String) (h : DocumentFreeBelow nodes) :
    DocumentFreeBelow (consJoined (.text content) nodes) ∧
      itemsBelow (consJoined (.text content) nodes) =
        Item.consJoined (.text content) (itemsBelow nodes) := by
  cases nodes with
  | nil => exact ⟨⟨trivial, trivial⟩, rfl⟩
  | cons node nodes =>
    cases node with
    | document children => exact h.1.elim
    | text more => exact ⟨⟨trivial, h.2⟩, rfl⟩
    | forLoop header children => exact ⟨⟨trivial, h⟩, rfl⟩
    | echo elements => exact ⟨⟨trivial, h⟩, rfl⟩

/-- With texts joined the walk has them joined. -/
theorem joinTexts_spec {nodes : List Node} (h : DocumentFreeBelow nodes) :
    DocumentFreeBelow (joinTexts nodes) ∧
      itemsBelow (joinTexts nodes) = Item.joinTexts (itemsBelow nodes) := by
  induction nodes using forest_induction with
  | nil => exact ⟨trivial, rfl⟩
  | text content nodes ih =>
    obtain ⟨hfree, hitems⟩ := ih h.2
    have hjoined := consJoined_text content hfree
    rw [hitems] at hjoined
    exact hjoined
  | echo elements nodes ih =>
    obtain ⟨hfree, hitems⟩ := ih h.2
    exact ⟨⟨trivial, hfree⟩, congrArg (Item.echo elements :: ·) hitems⟩
  | forLoop header children nodes ihc ih =>
    obtain ⟨hfree, hitems⟩ := ih h.2
    obtain ⟨hfreec, hitemsc⟩ := ihc h.1
    refine ⟨⟨hfreec, hfree⟩, ?_⟩
    have hwalk : itemsBelow (.forLoop header children :: nodes) =
        .openLoop header :: (itemsBelow children ++ .closeLoop :: itemsBelow nodes) := by
      simp [items]
    have hjoined : itemsBelow (joinTexts (.forLoop header children :: nodes)) =
        .openLoop header :: (itemsBelow (joinTexts children) ++
          .closeLoop :: itemsBelow (joinTexts nodes)) := by
      simp [joinTexts, joinInside, consJoined, items]
    rw [hjoined, hwalk, hitems, hitemsc, ← Item.joinTexts_append_cons rfl]
    rfl
  | document children nodes ihc ih => exact h.1.elim

/-! ## The normal form -/

theorem documentFreeBelow_normalForm (nodes : List Node) :
    DocumentFreeBelow (normalForm nodes) :=
  (joinTexts_spec (dropEmptyTexts_spec (spliceDocuments_spec nodes).1).1).1

/-- **The walk of the normal form** is that of the trees, without empty texts and with the
others joined. -/
theorem itemsBelow_normalForm (nodes : List Node) :
    itemsBelow (normalForm nodes) =
      Item.joinTexts ((itemsBelow nodes).filter (· ≠ .text "")) := by
  obtain ⟨hspliced, hsplice⟩ := spliceDocuments_spec nodes
  obtain ⟨hdropped, hdrop⟩ := dropEmptyTexts_spec hspliced
  rw [normalForm, (joinTexts_spec hdropped).2, hdrop, hsplice]

theorem apart_normalForm (nodes : List Node) : Item.Apart (itemsBelow (normalForm nodes)) := by
  rw [itemsBelow_normalForm]
  refine Item.apart_joinTexts fun item hitem => ?_
  simpa using (List.mem_filter.mp hitem).2

/-- **The normal form has the canonical text of the trees.** -/
theorem canonicalTexts_normalForm (nodes : List Node) :
    canonicalTexts (normalForm nodes) = canonicalTexts nodes := by
  rw [← String.toList_inj, toList_canonicalTexts, toList_canonicalTexts, itemsBelow_normalForm,
    Item.flatMap_joinTexts, Item.flatMap_filter_ne_empty]

/-- The normal form stays within the limits that the trees stay within. -/
theorem nestingBelow_normalForm_le_iff {limit : Nat} (nodes : List Node) :
    nestingBelow (normalForm nodes) ≤ limit ↔ nestingBelow nodes ≤ limit := by
  rw [← withinLimit_itemsBelow_iff, ← withinLimit_itemsBelow_iff,
    ← Item.withinLimit_filter_isBracket, itemsBelow_normalForm, Item.filter_isBracket_joinTexts,
    Item.filter_isBracket_filter_ne_empty, Item.withinLimit_filter_isBracket]

end Node
end TagTemplate
