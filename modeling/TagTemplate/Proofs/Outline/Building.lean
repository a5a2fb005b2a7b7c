import TagTemplate.Proofs.Outline.Assembly
import TagTemplate.Proofs.Outline.Loops

/-!
# What the tree under construction records

`Assembly.Records` says of an assembly that it holds exactly the given items: walking
the open loops from the outermost one in, and then the nodes of the innermost one, gives
them back in order, and every open loop was opened by the `FOR` tag of which it keeps the
position, with nothing but balanced items after that tag.

* `Records.addItem`, `Records.foldlM`: one item keeps this, and so does a run of items.
* `addItem_eq_error_iff`: items are refused for two reasons only.
* `exists_foldlM_eq_ok_iff`: a run of items is accepted exactly when its count of open
  loops stays within the limit.
-/

namespace TagTemplate

open Node (itemsBelow DocumentFreeBelow)

namespace Assembly

/-- The items recorded by the open loops, the outermost one first. -/
def traceOf : List OpenLoop → List Item
  | [] => []
  | loop :: loops =>
      traceOf loops ++ (itemsBelow loop.before.reverse ++ [.openLoop loop.header])

/-- The items recorded by an assembly. -/
def trace (a : Assembly) : List Item := traceOf a.loops ++ itemsBelow a.nodes.reverse

/-- Each open loop comes from a `FOR` tag among the items, and all loops opened after
that tag and not open any more were closed. -/
def OpenedBy : List (Located Item) → List OpenLoop → Prop
  | _, [] => True
  | items, loop :: loops =>
      ∃ p s, items = p ++ ⟨.openLoop loop.header, loop.position⟩ :: s ∧
        Item.Balanced (s.map Located.value) ∧ OpenedBy p loops

/-- The assembly holds exactly the given items. -/
structure Records (limit : Nat) (a : Assembly) (items : List (Located Item)) : Prop where
  trace_eq : a.trace = items.map Located.value
  length_eq : (a.loops.length : Int) = Item.net (items.map Located.value)
  length_le : a.loops.length ≤ limit
  free_nodes : DocumentFreeBelow a.nodes
  free_before : ∀ loop ∈ a.loops, DocumentFreeBelow loop.before
  openedBy : OpenedBy items a.loops

variable {limit : Nat} {a b : Assembly} {item : Located Item} {items : List (Located Item)}

/-! ## One item -/

/-- All that an item can do to an assembly. -/
theorem addItem_cases (h : a.addItem limit item = .ok b) :
    (∃ node, Node.items node = [item.value] ∧ Node.DocumentFree node ∧ item.value.delta = 0 ∧
      b = a.addNode node) ∨
    (∃ header, item.value = .openLoop header ∧ a.loops.length < limit ∧
      b = ⟨.body, [], ⟨header, item.position, a.nodes⟩ :: a.loops⟩) ∨
    (∃ loop loops, item.value = .closeLoop ∧ a.loops = loop :: loops ∧
      b = ⟨.body, .forLoop loop.header a.nodes.reverse :: loop.before, loops⟩) := by
  unfold addItem at h
  split at h
  · rename_i content hvalue
    exact .inl ⟨.text content, by rw [hvalue]; rfl, trivial, by rw [hvalue]; rfl,
      (Except.ok.inj h).symm⟩
  · rename_i elements hvalue
    exact .inl ⟨.echo elements, by rw [hvalue]; rfl, trivial, by rw [hvalue]; rfl,
      (Except.ok.inj h).symm⟩
  · rename_i header hvalue
    unfold openLoop at h
    split at h
    · exact absurd h (by simp)
    · rename_i hlimit
      exact .inr (.inl ⟨header, hvalue, by omega, (Except.ok.inj h).symm⟩)
  · rename_i hvalue
    unfold closeLoop at h
    split at h
    · exact absurd h (by simp)
    · rename_i loop loops hloops
      exact .inr (.inr ⟨loop, loops, hvalue, hloops, (Except.ok.inj h).symm⟩)

/-- The two items that are refused: an `END` with no loop open, and a `FOR` with as many
loops open as the limit allows. -/
theorem addItem_eq_error_iff {error : Error} :
    a.addItem limit item = .error error ↔
      (item.value = .closeLoop ∧ a.loops = [] ∧
        error = Fault.unmatchedEnd.toError item.position) ∨
      (∃ header, item.value = .openLoop header ∧ limit ≤ a.loops.length ∧
        error = (Fault.nestingTooDeep limit).toError item.position) := by
  unfold addItem
  cases item.value with
  | text content => simp
  | echo elements => simp
  | openLoop header =>
    by_cases hlimit : limit ≤ a.loops.length
    · simp [openLoop, hlimit, eq_comm]
    · simp [openLoop, hlimit]
  | closeLoop =>
    cases hloops : a.loops with
    | nil => simp [closeLoop, hloops, eq_comm]
    | cons loop loops => simp [closeLoop, hloops]

theorem OpenedBy.append_balanced {loops : List OpenLoop} (h : OpenedBy items loops)
    (more : List (Located Item)) (hmore : Item.Balanced (more.map Located.value)) :
    OpenedBy (items ++ more) loops := by
  cases loops with
  | nil => trivial
  | cons loop loops =>
    obtain ⟨p, s, rfl, hs, hp⟩ := h
    refine ⟨p, s ++ more, by rw [List.append_assoc, List.cons_append], ?_, hp⟩
    rw [List.map_append]
    exact hs.append hmore

theorem records_empty : Records limit empty [] where
  trace_eq := rfl
  length_eq := rfl
  length_le := Nat.zero_le _
  free_nodes := trivial
  free_before := by simp [empty]
  openedBy := trivial

/-- **One item is recorded.** -/
theorem Records.addItem (h : a.Records limit items) (hadd : a.addItem limit item = .ok b) :
    b.Records limit (items ++ [item]) := by
  have hnet : Item.net ((items ++ [item]).map Located.value) =
      a.loops.length + item.value.delta := by
    simp [h.length_eq]
  rcases addItem_cases hadd with ⟨node, hitems, hfree, hdelta, rfl⟩ |
    ⟨header, hvalue, hlimit, rfl⟩ | ⟨loop, loops, hvalue, hloops, rfl⟩
  · -- a text or an echo tag becomes the last node
    refine ⟨?_, ?_, h.length_le, ⟨hfree, h.free_nodes⟩, h.free_before,
      h.openedBy.append_balanced [item] (Item.Balanced.singleton hdelta)⟩
    · show traceOf a.loops ++ itemsBelow (node :: a.nodes).reverse = _
      rw [List.reverse_cons, Node.itemsBelow_append, ← List.append_assoc, List.map_append,
        ← h.trace_eq, trace, Node.itemsBelow_cons, hitems]
      rfl
    · rw [hnet, hdelta, Int.add_zero]
      rfl
  · -- a loop is opened, and the nodes so far are kept in front of it
    refine ⟨?_, ?_, hlimit, trivial, ?_, ?_⟩
    · show traceOf a.loops ++ (itemsBelow a.nodes.reverse ++ [.openLoop header]) ++ [] = _
      rw [List.append_nil, ← List.append_assoc, List.map_append, ← h.trace_eq, trace]
      simp [hvalue]
    · rw [hnet, hvalue, Item.delta_openLoop, List.length_cons]
      omega
    · intro loop hloop
      rcases List.mem_cons.mp hloop with rfl | hloop
      · exact h.free_nodes
      · exact h.free_before loop hloop
    · refine ⟨items, [], ?_, Item.Balanced.nil, h.openedBy⟩
      rw [← hvalue]
  · -- the innermost loop is closed, and becomes the last node of the body around it
    have hfree : DocumentFreeBelow loop.before := h.free_before loop (by simp [hloops])
    refine ⟨?_, ?_, ?_, ⟨by simpa [Node.DocumentFree] using h.free_nodes, hfree⟩, ?_, ?_⟩
    · show traceOf loops ++
        itemsBelow (.forLoop loop.header a.nodes.reverse :: loop.before).reverse = _
      rw [List.map_append, ← h.trace_eq, trace, hloops, traceOf]
      simp [Node.items, hvalue]
    · show (loops.length : Int) = _
      rw [hnet, hvalue, hloops, Item.delta_closeLoop, List.length_cons]
      omega
    · show loops.length ≤ limit
      have hle := h.length_le
      rw [hloops, List.length_cons] at hle
      omega
    · intro x hx
      exact h.free_before x (by rw [hloops]; exact List.mem_cons_of_mem _ hx)
    · have hopened := h.openedBy
      rw [hloops] at hopened
      obtain ⟨p, s, rfl, hs, hp⟩ := hopened
      have hloop := hp.append_balanced
        (⟨.openLoop loop.header, loop.position⟩ :: (s ++ [item]))
        (by simpa [hvalue] using hs.loop loop.header)
      rwa [List.append_assoc, List.cons_append]

/-! ## A run of items -/

/-- **A run of items is recorded.** -/
theorem Records.foldlM {more : List (Located Item)} (h : a.Records limit items)
    (hrun : more.foldlM (Assembly.addItem limit) a = .ok b) :
    b.Records limit (items ++ more) := by
  induction more generalizing a items with
  | nil =>
    obtain rfl := Except.ok.inj hrun
    rwa [List.append_nil]
  | cons item more ih =>
    rw [List.foldlM_cons] at hrun
    cases hadd : a.addItem limit item with
    | error error =>
      rw [hadd] at hrun
      exact absurd hrun (by simp [bind, Except.bind])
    | ok c =>
      rw [hadd] at hrun
      have hrecords := ih (h.addItem hadd) hrun
      rwa [List.append_assoc, List.singleton_append] at hrecords

/-- What a run of items records from the beginning. -/
theorem records_of_foldlM (h : items.foldlM (addItem limit) empty = .ok b) :
    b.Records limit items :=
  records_empty.foldlM h

theorem foldlM_append_of_ok {p s : List (Located Item)} (h : p.foldlM (addItem limit) a = .ok b) :
    (p ++ s).foldlM (addItem limit) a = s.foldlM (addItem limit) b := by
  rw [List.foldlM_append, h]
  rfl

theorem foldlM_append_of_error {error : Error} {p : List (Located Item)}
    (h : p.foldlM (addItem limit) a = .error error) (s : List (Located Item)) :
    (p ++ s).foldlM (addItem limit) a = .error error := by
  rw [List.foldlM_append, h]
  rfl

/-- A run of items that fails does so at one item, and the items before it are accepted. -/
theorem exists_refused_of_foldlM {error : Error}
    (h : items.foldlM (addItem limit) a = .error error) :
    ∃ p item s b, items = p ++ item :: s ∧ p.foldlM (addItem limit) a = .ok b ∧
      b.addItem limit item = .error error := by
  induction items generalizing a with
  | nil => exact absurd h (by simp [pure, Except.pure])
  | cons item items ih =>
    rw [List.foldlM_cons] at h
    cases hadd : a.addItem limit item with
    | error error' =>
      rw [hadd] at h
      obtain rfl : error' = error := Except.error.inj h
      exact ⟨[], item, items, a, rfl, rfl, hadd⟩
    | ok b =>
      rw [hadd] at h
      obtain ⟨p, refused, s, c, rfl, hp, hc⟩ := ih h
      refine ⟨item :: p, refused, s, c, rfl, ?_, hc⟩
      rw [List.foldlM_cons, hadd]
      exact hp

/-- **Which runs of items are accepted**: those in which no `END` is without a loop, and
no loop is one too many. -/
theorem exists_foldlM_eq_ok_iff :
    (∃ b, items.foldlM (addItem limit) empty = .ok b) ↔
      Item.WithinLimit limit (items.map Located.value) := by
  induction items using List.reverseRecOn with
  | nil =>
    refine ⟨fun _ p hp => ?_, fun _ => ⟨empty, rfl⟩⟩
    obtain rfl := List.prefix_nil.mp hp
    simp
  | append_singleton items item ih =>
    rw [List.map_append, List.map_cons, List.map_nil, Item.withinLimit_concat_iff, ← ih]
    constructor
    · rintro ⟨b, hb⟩
      cases hrun : items.foldlM (addItem limit) empty with
      | error error =>
        rw [foldlM_append_of_error hrun] at hb
        exact absurd hb (by simp)
      | ok c =>
        have hrecords := records_of_foldlM hb
        have hlength := hrecords.length_eq
        have hle := hrecords.length_le
        rw [List.map_append, Item.net_append, List.map_cons, List.map_nil, Item.net_cons,
          Item.net_nil] at hlength
        exact ⟨⟨c, rfl⟩, by omega, by omega⟩
    · rintro ⟨⟨c, hc⟩, hlow, hhigh⟩
      have hlength := (records_of_foldlM hc).length_eq
      rw [foldlM_append_of_ok hc]
      cases hadd : c.addItem limit item with
      | ok b => exact ⟨b, by rw [List.foldlM_cons, hadd]; rfl⟩
      | error error =>
        -- the count of open loops rules out both reasons to refuse the item
        rcases addItem_eq_error_iff.mp hadd with ⟨hvalue, hloops, -⟩ | ⟨header, hvalue, hfull, -⟩
        · rw [hloops, List.length_nil] at hlength
          rw [hvalue, Item.delta_closeLoop] at hlow
          omega
        · rw [hvalue, Item.delta_openLoop] at hhigh
          omega

end Assembly
end TagTemplate
