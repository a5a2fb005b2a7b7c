import Mathlib.Data.List.Induction
import TagTemplate.Proofs.Grammar

/-!
# How the loops lie in a sequence of items

A `FOR` tag goes one loop further in, and an `END` tag goes one loop out.  `Item.net`
counts the first minus the second, so after each item it says how many loops are open,
and below zero it says that an `END` has nothing to close.

* `Item.WithinLimit`: along the way the count stays between zero and a limit.
* `Item.Balanced`: the count never goes below zero and ends at zero.

A tree is walked in document order by `Node.items`, which gives the header of a loop on
entering it and an `END` on leaving it.

* `Node.balanced_itemsBelow`, `Node.withinLimit_itemsBelow_iff`: the walk of a tree is
  balanced, and the count on the way rises exactly to the nesting of the tree.
* `Node.eq_of_itemsBelow_eq`: trees without document nodes are told apart by their walks.
-/

namespace TagTemplate

namespace Item

/-- By how many loops an item goes further in. -/
def delta : Item → Int
  | openLoop _ => 1
  | closeLoop => -1
  | _ => 0

/-- The number of `FOR` tags minus the number of `END` tags. -/
def net : List Item → Int
  | [] => 0
  | item :: items => item.delta + net items

@[simp] theorem net_nil : net [] = 0 := rfl

@[simp] theorem net_cons (item : Item) (items : List Item) :
    net (item :: items) = item.delta + net items := rfl

@[simp] theorem net_append (as bs : List Item) : net (as ++ bs) = net as + net bs := by
  induction as with
  | nil => simp
  | cons item as ih => rw [List.cons_append, net_cons, net_cons, ih, Int.add_assoc]

@[simp] theorem delta_text (content : String) : delta (text content) = 0 := rfl

@[simp] theorem delta_echo (elements : List Element) : delta (echo elements) = 0 := rfl

@[simp] theorem delta_openLoop (header : LoopHeader) : delta (openLoop header) = 1 := rfl

@[simp] theorem delta_closeLoop : delta closeLoop = -1 := rfl

/-- After any number of the items, at least none and at most `limit` loops are open. -/
def WithinLimit (limit : Nat) (items : List Item) : Prop :=
  ∀ p, p <+: items → 0 ≤ net p ∧ net p ≤ limit

/-- Every `END` closes a loop that was opened before it, and all loops are closed. -/
structure Balanced (items : List Item) : Prop where
  net_nonneg : ∀ p, p <+: items → 0 ≤ net p
  net_eq_zero : net items = 0

theorem WithinLimit.of_prefix {limit : Nat} {p items : List Item} (h : WithinLimit limit items)
    (hp : p <+: items) : WithinLimit limit p :=
  fun q hq => h q (hq.trans hp)

theorem withinLimit_concat_iff {limit : Nat} {items : List Item} {item : Item} :
    WithinLimit limit (items ++ [item]) ↔ WithinLimit limit items ∧
      0 ≤ net items + item.delta ∧ net items + item.delta ≤ limit := by
  constructor
  · intro h
    refine ⟨h.of_prefix (List.prefix_append _ _), ?_⟩
    have hall := h _ (List.prefix_refl _)
    rwa [net_append, net_cons, net_nil, Int.add_zero] at hall
  · rintro ⟨h, hlast⟩ p hp
    rcases List.prefix_concat_iff.mp hp with rfl | hp
    · rwa [net_append, net_cons, net_nil, Int.add_zero]
    · exact h p hp

/-- Whether an item opens or closes a loop. -/
def isBracket : Item → Bool
  | openLoop _ => true
  | closeLoop => true
  | _ => false

theorem delta_of_not_isBracket {item : Item} (h : item.isBracket = false) : item.delta = 0 := by
  cases item with
  | text content => rfl
  | echo elements => rfl
  | openLoop header => exact absurd h (by simp [isBracket])
  | closeLoop => exact absurd h (by simp [isBracket])

theorem net_filter_isBracket (items : List Item) : net (items.filter isBracket) = net items := by
  induction items with
  | nil => rfl
  | cons item items ih =>
    cases hitem : item.isBracket with
    | true => rw [List.filter_cons_of_pos hitem, net_cons, net_cons, ih]
    | false =>
      rw [List.filter_cons_of_neg (by simp [hitem]), net_cons, ih, delta_of_not_isBracket hitem,
        Int.zero_add]

/-- Only `FOR` tags and `END` tags count towards the limit. -/
theorem withinLimit_filter_isBracket {limit : Nat} {items : List Item} :
    WithinLimit limit (items.filter isBracket) ↔ WithinLimit limit items := by
  induction items using List.reverseRecOn with
  | nil => exact Iff.rfl
  | append_singleton items item ih =>
    rw [List.filter_append, withinLimit_concat_iff, ← ih]
    cases hitem : item.isBracket with
    | true =>
      rw [List.filter_cons_of_pos hitem, List.filter_nil, withinLimit_concat_iff,
        net_filter_isBracket]
    | false =>
      rw [List.filter_cons_of_neg (by simp [hitem]), List.filter_nil, List.append_nil,
        delta_of_not_isBracket hitem, Int.add_zero]
      refine ⟨fun h => ⟨h, ?_⟩, And.left⟩
      have hall := h _ (List.prefix_refl _)
      rwa [net_filter_isBracket] at hall

/-- A beginning of a sequence in two parts ends in the first part or in the second. -/
theorem prefix_append_cases {p as bs : List Item} (h : p <+: as ++ bs) :
    p <+: as ∨ ∃ q, q <+: bs ∧ p = as ++ q := by
  obtain ⟨t, ht⟩ := h
  rcases List.append_eq_append_iff.mp ht with ⟨u, hu, -⟩ | ⟨u, hu, hbs⟩
  · exact .inl ⟨u, hu.symm⟩
  · exact .inr ⟨u, ⟨t, hbs.symm⟩, hu⟩

namespace Balanced

theorem nil : Balanced [] := by
  constructor
  · intro p hp
    obtain rfl := List.prefix_nil.mp hp
    exact Int.le_refl 0
  · rfl

theorem append {as bs : List Item} (ha : Balanced as) (hb : Balanced bs) :
    Balanced (as ++ bs) := by
  constructor
  · intro p hp
    rcases prefix_append_cases hp with hp | ⟨q, hq, rfl⟩
    · exact ha.net_nonneg p hp
    · rw [net_append, ha.net_eq_zero, Int.zero_add]
      exact hb.net_nonneg q hq
  · rw [net_append, ha.net_eq_zero, hb.net_eq_zero, Int.add_zero]

theorem singleton {item : Item} (h : item.delta = 0) : Balanced [item] := by
  constructor
  · intro p hp
    rcases List.prefix_concat_iff.mp (show p <+: [] ++ [item] from hp) with rfl | hp
    · simp [h]
    · exact nil.net_nonneg p hp
  · rw [net_cons, h, net_nil, Int.add_zero]

/-- A loop around balanced items. -/
theorem loop {items : List Item} (h : Balanced items) (header : LoopHeader) :
    Balanced (openLoop header :: (items ++ [closeLoop])) := by
  constructor
  · intro p hp
    rcases List.prefix_cons_iff.mp hp with rfl | ⟨q, rfl, hq⟩
    · exact Int.le_refl _
    · rcases List.prefix_concat_iff.mp hq with rfl | hq
      · simp [h.net_eq_zero]
      · have hpos := h.net_nonneg q hq
        rw [net_cons, delta_openLoop]
        omega
  · simp [h.net_eq_zero]

/-- In balanced items no loop is left open by what follows its `FOR` tag. -/
theorem not_balanced_after_openLoop {u r : List Item} {header : LoopHeader}
    (h : Balanced (u ++ openLoop header :: r)) : ¬ Balanced r := by
  intro hr
  have hnet := h.net_eq_zero
  have hbefore := h.net_nonneg u (List.prefix_append _ _)
  rw [net_append, net_cons, delta_openLoop, hr.net_eq_zero] at hnet
  omega

end Balanced
end Item

namespace Node

mutual

/-- The items of a tree in document order. -/
def items : Node → List Item
  | document children => itemsBelow children
  | text content => [.text content]
  | forLoop header children => .openLoop header :: (itemsBelow children ++ [.closeLoop])
  | echo elements => [.echo elements]

/-- The items of trees, one tree after another. -/
def itemsBelow : List Node → List Item
  | [] => []
  | node :: nodes => items node ++ itemsBelow nodes

end

@[simp] theorem itemsBelow_nil : itemsBelow [] = [] := rfl

@[simp] theorem itemsBelow_cons (node : Node) (nodes : List Node) :
    itemsBelow (node :: nodes) = items node ++ itemsBelow nodes := rfl

@[simp] theorem itemsBelow_append (as bs : List Node) :
    itemsBelow (as ++ bs) = itemsBelow as ++ itemsBelow bs := by
  induction as with
  | nil => rfl
  | cons node as ih =>
    rw [List.cons_append, itemsBelow_cons, itemsBelow_cons, ih, List.append_assoc]

mutual

/-- No document node is the node or stands below it. -/
def DocumentFree : Node → Prop
  | document _ => False
  | forLoop _ children => DocumentFreeBelow children
  | text _ => True
  | echo _ => True

/-- None of the trees is a document node or holds one. -/
def DocumentFreeBelow : List Node → Prop
  | [] => True
  | node :: nodes => DocumentFree node ∧ DocumentFreeBelow nodes

end

@[simp] theorem documentFreeBelow_nil : DocumentFreeBelow [] := trivial

@[simp] theorem documentFreeBelow_cons {node : Node} {nodes : List Node} :
    DocumentFreeBelow (node :: nodes) ↔ DocumentFree node ∧ DocumentFreeBelow nodes := Iff.rfl

@[simp] theorem documentFreeBelow_append {as bs : List Node} :
    DocumentFreeBelow (as ++ bs) ↔ DocumentFreeBelow as ∧ DocumentFreeBelow bs := by
  induction as with
  | nil => simp
  | cons node as ih => simp [ih, and_assoc]

@[simp] theorem documentFreeBelow_reverse {nodes : List Node} :
    DocumentFreeBelow nodes.reverse ↔ DocumentFreeBelow nodes := by
  induction nodes with
  | nil => simp
  | cons node nodes ih => simp [ih, and_comm]

/-- Induction over the trees of a forest: the first tree is of one of the four kinds, and
its children are a forest of their own. -/
theorem forest_induction {P : List Node → Prop} (nil : P [])
    (text : ∀ content nodes, P nodes → P (.text content :: nodes))
    (echo : ∀ elements nodes, P nodes → P (.echo elements :: nodes))
    (forLoop : ∀ header children nodes, P children → P nodes →
      P (.forLoop header children :: nodes))
    (document : ∀ children nodes, P children → P nodes → P (.document children :: nodes)) :
    ∀ nodes, P nodes
  | [] => nil
  | .text content :: nodes =>
      text content nodes (forest_induction nil text echo forLoop document nodes)
  | .echo elements :: nodes =>
      echo elements nodes (forest_induction nil text echo forLoop document nodes)
  | .forLoop header children :: nodes =>
      forLoop header children nodes (forest_induction nil text echo forLoop document children)
        (forest_induction nil text echo forLoop document nodes)
  | .document children :: nodes =>
      document children nodes (forest_induction nil text echo forLoop document children)
        (forest_induction nil text echo forLoop document nodes)

/-- The walk of trees is balanced. -/
theorem balanced_itemsBelow (nodes : List Node) : Item.Balanced (itemsBelow nodes) := by
  induction nodes using forest_induction with
  | nil => exact Item.Balanced.nil
  | text content nodes ih => exact (Item.Balanced.singleton rfl).append ih
  | echo elements nodes ih => exact (Item.Balanced.singleton rfl).append ih
  | forLoop header children nodes ihc ih => exact (ihc.loop header).append ih
  | document children nodes ihc ih => exact ihc.append ih

/-- Somewhere on the walk of trees as many loops are open as lie on one path of them. -/
theorem exists_prefix_net_eq_nesting (nodes : List Node) :
    ∃ p, p <+: itemsBelow nodes ∧ Item.net p = nestingBelow nodes := by
  induction nodes using forest_induction with
  | nil => exact ⟨[], List.prefix_refl _, rfl⟩
  | text content nodes ih =>
    obtain ⟨p, hp, hnet⟩ := ih
    refine ⟨.text content :: p, (List.prefix_append_right_inj [_]).mpr hp, ?_⟩
    simp [nestingBelow, nesting, hnet]
  | echo elements nodes ih =>
    obtain ⟨p, hp, hnet⟩ := ih
    refine ⟨.echo elements :: p, (List.prefix_append_right_inj [_]).mpr hp, ?_⟩
    simp [nestingBelow, nesting, hnet]
  | forLoop header children nodes ihc ih =>
    obtain ⟨p, hp, hnet⟩ := ih
    obtain ⟨q, hq, hnetc⟩ := ihc
    -- the deepest path is in the first tree or after it
    rcases Nat.le_total (nestingBelow children + 1) (nestingBelow nodes) with h | h
    · refine ⟨items (.forLoop header children) ++ p,
        (List.prefix_append_right_inj _).mpr hp, ?_⟩
      have hzero : Item.net (items (.forLoop header children)) = 0 :=
        ((balanced_itemsBelow children).loop header).net_eq_zero
      rw [Item.net_append, hzero, hnet, nestingBelow, nesting, Nat.max_eq_right h, Int.zero_add]
    · refine ⟨.openLoop header :: q, ?_, ?_⟩
      · have hinner : .openLoop header :: q <+: items (.forLoop header children) :=
          (List.prefix_append_right_inj [_]).mpr (hq.trans (List.prefix_append _ _))
        exact hinner.trans (List.prefix_append _ _)
      · rw [Item.net_cons, hnetc, nestingBelow, nesting, Nat.max_eq_left h, Item.delta_openLoop]
        omega
  | document children nodes ihc ih =>
    obtain ⟨p, hp, hnet⟩ := ih
    obtain ⟨q, hq, hnetc⟩ := ihc
    rcases Nat.le_total (nestingBelow children) (nestingBelow nodes) with h | h
    · refine ⟨itemsBelow children ++ p, (List.prefix_append_right_inj _).mpr hp, ?_⟩
      rw [Item.net_append, (balanced_itemsBelow children).net_eq_zero, hnet, nestingBelow,
        nesting, Nat.max_eq_right h, Int.zero_add]
    · refine ⟨q, hq.trans (List.prefix_append _ _), ?_⟩
      rw [hnetc, nestingBelow, nesting, Nat.max_eq_left h]

/-- Nowhere on the walk of trees are more loops open than lie on one path of them. -/
theorem net_le_nesting {p : List Item} {nodes : List Node} (h : p <+: itemsBelow nodes) :
    Item.net p ≤ nestingBelow nodes := by
  induction nodes using forest_induction generalizing p with
  | nil =>
    obtain rfl := List.prefix_nil.mp h
    exact Int.le_refl _
  | text content nodes ih =>
    rcases List.prefix_cons_iff.mp h with rfl | ⟨q, rfl, hq⟩
    · simp
    · simpa [nestingBelow, nesting] using ih hq
  | echo elements nodes ih =>
    rcases List.prefix_cons_iff.mp h with rfl | ⟨q, rfl, hq⟩
    · simp
    · simpa [nestingBelow, nesting] using ih hq
  | forLoop header children nodes ihc ih =>
    rw [nestingBelow, nesting]
    rcases Item.prefix_append_cases h with hp | ⟨q, hq, rfl⟩
    · -- inside the loop, one more is open than on the walk of its children
      rcases List.prefix_cons_iff.mp hp with rfl | ⟨q, rfl, hq⟩
      · rw [Item.net_nil]
        omega
      · rcases List.prefix_concat_iff.mp hq with rfl | hq
        · rw [Item.net_cons, Item.net_append, (balanced_itemsBelow children).net_eq_zero,
            Item.net_cons, Item.net_nil, Item.delta_openLoop, Item.delta_closeLoop]
          omega
        · have hle := ihc hq
          rw [Item.net_cons, Item.delta_openLoop]
          omega
    · have hle := ih hq
      have hzero : Item.net (items (.forLoop header children)) = 0 :=
        ((balanced_itemsBelow children).loop header).net_eq_zero
      rw [Item.net_append, hzero]
      omega
  | document children nodes ihc ih =>
    rw [nestingBelow, nesting]
    rcases Item.prefix_append_cases h with hp | ⟨q, hq, rfl⟩
    · have hle := ihc hp
      omega
    · have hle := ih hq
      have hzero : Item.net (items (.document children)) = 0 :=
        (balanced_itemsBelow children).net_eq_zero
      rw [Item.net_append, hzero]
      omega

/-- The walk of trees stays within a limit exactly when no path of them holds more loops. -/
theorem withinLimit_itemsBelow_iff {limit : Nat} {nodes : List Node} :
    Item.WithinLimit limit (itemsBelow nodes) ↔ nestingBelow nodes ≤ limit := by
  constructor
  · intro h
    obtain ⟨p, hp, hnet⟩ := exists_prefix_net_eq_nesting nodes
    have hle := (h p hp).2
    omega
  · intro h p hp
    have hle := net_le_nesting hp
    exact ⟨(balanced_itemsBelow nodes).net_nonneg p hp, by omega⟩

/-! ## Trees from walks -/

/-- The walk of a tree without document nodes is not empty, and starts with no `END`. -/
theorem exists_items_eq_cons {node : Node} (h : DocumentFree node) :
    ∃ first more, items node = first :: more ∧ first ≠ .closeLoop := by
  cases node with
  | document children => exact h.elim
  | text content => exact ⟨_, _, rfl, by simp⟩
  | forLoop header children => exact ⟨_, _, rfl, by simp⟩
  | echo elements => exact ⟨_, _, rfl, by simp⟩

/-- What may follow the walk of trees without being part of it: nothing, or an `END`. -/
def EndsWalk (after : List Item) : Prop := ∀ item ∈ after.head?, item = .closeLoop

theorem endsWalk_nil : EndsWalk [] := by simp [EndsWalk]

theorem endsWalk_closeLoop (after : List Item) : EndsWalk (.closeLoop :: after) := by
  simp [EndsWalk]

/-- If a walk is over at once, there are no trees. -/
theorem eq_nil_of_endsWalk {nodes : List Node} {after after' : List Item}
    (hfree : DocumentFreeBelow nodes) (hends : EndsWalk after)
    (h : after = itemsBelow nodes ++ after') : nodes = [] := by
  cases nodes with
  | nil => rfl
  | cons node nodes =>
    obtain ⟨first, more, hfirst, hne⟩ := exists_items_eq_cons hfree.1
    rw [itemsBelow_cons, hfirst] at h
    exact absurd (hends first (by rw [h]; rfl)) hne

/-- If a walk starts with something else than an `END`, there are trees. -/
theorem exists_eq_cons_of_itemsBelow {nodes : List Node} {item : Item} {rest after : List Item}
    (hends : EndsWalk after) (hne : item ≠ .closeLoop)
    (h : item :: rest = itemsBelow nodes ++ after) : ∃ first more, nodes = first :: more := by
  cases nodes with
  | nil =>
    have hhead : item ∈ after.head? := by
      rw [itemsBelow_nil, List.nil_append] at h
      rw [← h, List.head?_cons]
      rfl
    exact absurd (hends item hhead) hne
  | cons first more => exact ⟨first, more, rfl⟩

/-- Trees are found again in what starts with their walk. -/
theorem eq_of_itemsBelow_append_eq {as bs : List Node} {after after' : List Item}
    (has : DocumentFreeBelow as) (hbs : DocumentFreeBelow bs) (hafter : EndsWalk after)
    (hafter' : EndsWalk after') (h : itemsBelow as ++ after = itemsBelow bs ++ after') :
    as = bs ∧ after = after' := by
  induction as using forest_induction generalizing bs after after' with
  | nil =>
    obtain rfl := eq_nil_of_endsWalk hbs hafter h
    exact ⟨rfl, h⟩
  | document children nodes ihc ih => exact has.1.elim
  | text content nodes ih =>
    obtain ⟨node, bs, rfl⟩ := exists_eq_cons_of_itemsBelow hafter' (by simp) h
    cases node with
    | document children => exact hbs.1.elim
    | forLoop header children => exact absurd (List.cons.inj h).1 (by simp)
    | echo elements => exact absurd (List.cons.inj h).1 (by simp)
    | text content' =>
      obtain ⟨hitem, hrest⟩ := List.cons.inj h
      obtain rfl := Item.text.inj hitem
      obtain ⟨rfl, rfl⟩ := ih has.2 hbs.2 hafter hafter' hrest
      exact ⟨rfl, rfl⟩
  | echo elements nodes ih =>
    obtain ⟨node, bs, rfl⟩ := exists_eq_cons_of_itemsBelow hafter' (by simp) h
    cases node with
    | document children => exact hbs.1.elim
    | forLoop header children => exact absurd (List.cons.inj h).1 (by simp)
    | text content => exact absurd (List.cons.inj h).1 (by simp)
    | echo elements' =>
      obtain ⟨hitem, hrest⟩ := List.cons.inj h
      obtain rfl := Item.echo.inj hitem
      obtain ⟨rfl, rfl⟩ := ih has.2 hbs.2 hafter hafter' hrest
      exact ⟨rfl, rfl⟩
  | forLoop header children nodes ihc ih =>
    obtain ⟨node, bs, rfl⟩ := exists_eq_cons_of_itemsBelow hafter' (by simp) h
    cases node with
    | document children => exact hbs.1.elim
    | echo elements => exact absurd (List.cons.inj h).1 (by simp)
    | text content => exact absurd (List.cons.inj h).1 (by simp)
    | forLoop header' children' =>
      obtain rfl := Item.openLoop.inj (List.cons.inj h).1
      -- the `END` of the loop is the first one that the walk of the children leaves
      have hrest : itemsBelow children ++ .closeLoop :: (itemsBelow nodes ++ after) =
          itemsBelow children' ++ .closeLoop :: (itemsBelow bs ++ after') := by
        simpa [items] using h
      obtain ⟨rfl, hclose⟩ := ihc has.1 hbs.1 (endsWalk_closeLoop _) (endsWalk_closeLoop _) hrest
      obtain ⟨rfl, rfl⟩ := ih has.2 hbs.2 hafter hafter' (List.cons.inj hclose).2
      exact ⟨rfl, rfl⟩

/-- **Trees without document nodes are told apart by their walks.** -/
theorem eq_of_itemsBelow_eq {as bs : List Node} (has : DocumentFreeBelow as)
    (hbs : DocumentFreeBelow bs) (h : itemsBelow as = itemsBelow bs) : as = bs :=
  (eq_of_itemsBelow_append_eq has hbs endsWalk_nil endsWalk_nil (by simpa using h)).1

end Node
end TagTemplate
