import TagTemplate.Proofs.Outline.Loops
import TagTemplate.Proofs.Reading.Item

/-!
# Runs of items

`Item.Run c items d` says that the items are spelled one after another from the cursor
`c`, each at its position, and that they end at the cursor `d`.  A run is longest when
no further item is spelled at its end: then either the text is over there, or what
stands there is wrong in itself.

* `LongestRun.unique`: from a cursor there is only one longest run.
* `exists_longestRun`, `LongestRun.outlineFrom_eq`: it is the outline, and the fault is
  that of what stands at its end.
* `Run.body`, `Body.exists_run`: the items of trees, without document nodes, are spelled
  one after another exactly where the grammar has the trees as a body.
-/

namespace TagTemplate

open Node (itemsBelow DocumentFreeBelow)

namespace Item

/-- The items are spelled one after another, each at its position. -/
inductive Run : Cursor → List (Located Item) → Cursor → Prop where
  | nil {c : Cursor} : Run c [] c
  | cons {c d e : Cursor} {u : List Char} {item : Item} {items : List (Located Item)}
      (h : Spelling c.rest item d.rest) (hread : Cursor.Reads c u d) (hitems : Run d items e) :
      Run c (⟨item, c.position⟩ :: items) e

/-- The items are spelled one after another, and no further item is spelled at the end. -/
structure LongestRun (c : Cursor) (items : List (Located Item)) (d : Cursor) : Prop where
  run : Run c items d
  stops : ∀ item rest, ¬ Spelling d.rest item rest

/-- The error of what stands at a cursor, where that is wrong in itself. -/
def faultAt (c : Cursor) : Option Error :=
  match next c with
  | .error error => some error
  | .ok _ => none

variable {c d e : Cursor} {items more : List (Located Item)} {item : Item} {rest : List Char}

/-- The cursor after an item that is spelled. -/
theorem Spelling.exists_reads (h : Spelling c.rest item rest) :
    ∃ u d, next c = .ok (some (⟨item, c.position⟩, d)) ∧ Cursor.Reads c u d ∧ d.rest = rest := by
  obtain ⟨d, hnext, hrest⟩ := next_of_spelling h
  obtain ⟨u, -, hread⟩ := exists_reads_next hnext
  exact ⟨u, d, hnext, hread, hrest⟩

theorem next_of_reads {u : List Char} (h : Spelling c.rest item d.rest)
    (hread : Cursor.Reads c u d) : next c = .ok (some (⟨item, c.position⟩, d)) := by
  obtain ⟨v, e, hnext, he, hrest⟩ := h.exists_reads
  obtain rfl := he.unique hread hrest
  exact hnext

/-- Where no item is spelled, the text is over or there is a fault. -/
theorem next_of_stops (h : ∀ item rest, ¬ Spelling c.rest item rest) :
    (c.rest = [] ∧ next c = .ok none) ∨ ∃ error, next c = .error error := by
  cases hnext : next c with
  | error error => exact .inr ⟨error, rfl⟩
  | ok found =>
    cases found with
    | none => exact .inl ⟨next_eq_none_iff.mp hnext, rfl⟩
    | some found =>
      obtain ⟨item, d⟩ := found
      exact absurd (spelling_of_next hnext) (h _ _)

theorem stops_of_rest_eq_nil (h : c.rest = []) (item : Item) (rest : List Char) :
    ¬ Spelling c.rest item rest := by
  intro hspell
  obtain ⟨u, d, hnext, -, -⟩ := hspell.exists_reads
  rw [next_eq_none_iff.mpr h] at hnext
  exact absurd hnext (by simp)

namespace Run

theorem append (h : Run c items d) (k : Run d more e) : Run c (items ++ more) e := by
  induction h with
  | nil => exact k
  | cons hspell hread _ ih => exact .cons hspell hread (ih k)

/-- A run of items in two parts is a run of the first part and one of the second. -/
theorem exists_of_append (h : Run c (items ++ more) e) : ∃ d, Run c items d ∧ Run d more e := by
  induction items generalizing c with
  | nil => exact ⟨c, .nil, h⟩
  | cons item items ih =>
    cases h with
    | cons hspell hread hitems =>
      obtain ⟨d, hfirst, hsecond⟩ := ih hitems
      exact ⟨d, .cons hspell hread hfirst, hsecond⟩

/-- Where a run ends is determined by its items. -/
theorem unique (h : Run c items d) (k : Run c items e) : d = e := by
  induction h with
  | nil => cases k; rfl
  | cons hspell hread _ ih =>
    cases k with
    | cons hspell' hread' hitems' =>
      obtain rfl := hread.unique hread' (hspell.unique hspell').2
      exact ih hitems'

/-- The outline from the beginning of a run is the run and the outline from its end. -/
theorem outlineFrom_eq (h : Run c items d) :
    outlineFrom c = ⟨items ++ (outlineFrom d).items, (outlineFrom d).fault⟩ := by
  induction h with
  | nil => rfl
  | cons hspell hread _ ih => rw [outlineFrom_of_some (next_of_reads hspell hread), ih]; rfl

end Run

/-- An item that is spelled stands at the front of a run, if what is after it is a run. -/
theorem Spelling.exists_run_cons {input after : List Char} {values : List Item}
    (h : Spelling input item after) (hc : c.rest = input)
    (hmore : ∀ d, d.rest = after →
      ∃ items e, Run d items e ∧ e.rest = rest ∧ items.map Located.value = values) :
    ∃ items e, Run c items e ∧ e.rest = rest ∧ items.map Located.value = item :: values := by
  rw [← hc] at h
  obtain ⟨u, d, -, hread, hd⟩ := h.exists_reads
  obtain ⟨items, e, hrun, hend, hvalues⟩ := hmore d hd
  rw [← hd] at h
  exact ⟨_, e, .cons h hread hrun, hend, by rw [List.map_cons, hvalues]⟩

/-- The outline is a longest run. -/
theorem exists_longestRun (c : Cursor) :
    ∃ d, LongestRun c (outlineFrom c).items d ∧ (outlineFrom c).fault = faultAt d := by
  fun_induction outlineFrom c with
  | case1 c error h =>
    refine ⟨c, ⟨.nil, fun item rest hspell => ?_⟩, by rw [faultAt, h]⟩
    obtain ⟨u, d, hnext, -, -⟩ := hspell.exists_reads
    rw [h] at hnext
    exact absurd hnext (by simp)
  | case2 c h =>
    exact ⟨c, ⟨.nil, stops_of_rest_eq_nil (next_eq_none_iff.mp h)⟩, by rw [faultAt, h]⟩
  | case3 c item d h _ ih =>
    obtain ⟨e, hlongest, hfault⟩ := ih
    obtain ⟨u, -, hread⟩ := exists_reads_next h
    obtain ⟨value, position⟩ := item
    obtain rfl : position = c.position := (next_eq_some_iff.mp h).1
    exact ⟨e, ⟨.cons (spelling_of_next h) hread hlongest.run, hlongest.stops⟩, hfault⟩

namespace LongestRun

/-- The outline is the only longest run. -/
theorem outlineFrom_eq (h : LongestRun c items d) : outlineFrom c = ⟨items, faultAt d⟩ := by
  rw [h.run.outlineFrom_eq]
  unfold faultAt
  rcases next_of_stops h.stops with ⟨-, hnext⟩ | ⟨error, hnext⟩
  · rw [outlineFrom_of_none hnext, hnext, List.append_nil]
  · rw [outlineFrom_of_error hnext, hnext, List.append_nil]

/-- **From a cursor there is only one longest run.** -/
theorem unique (h : LongestRun c items d) (k : LongestRun c more e) :
    items = more ∧ d = e := by
  have heq := h.outlineFrom_eq.symm.trans k.outlineFrom_eq
  obtain rfl : items = more := congrArg Outline.items heq
  exact ⟨rfl, h.run.unique k.run⟩

end LongestRun
end Item

/-! ## Bodies -/

variable {c d : Cursor} {items : List (Located Item)} {nodes : List Node}
  {input rest : List Char}

/-- The trees of a body hold no document nodes. -/
theorem Body.documentFreeBelow (h : Body input nodes rest) : DocumentFreeBelow nodes := by
  induction h with
  | nil => trivial
  | text _ _ ih => exact ⟨trivial, ih⟩
  | echo _ _ ih => exact ⟨trivial, ih⟩
  | forLoop _ _ _ _ ihc ih => exact ⟨ihc, ih⟩

/-- The items of a body are spelled one after another. -/
theorem Body.exists_run (h : Body input nodes rest) {c : Cursor} (hc : c.rest = input) :
    ∃ items d, Item.Run c items d ∧ d.rest = rest ∧
      items.map Located.value = itemsBelow nodes := by
  induction h generalizing c with
  | nil => exact ⟨[], c, .nil, hc, rfl⟩
  | text h _ ih => exact h.exists_run_cons hc fun d hd => ih hd
  | echo h _ ih => exact h.exists_run_cons hc fun d hd => ih hd
  | @forLoop _ inner _ _ rest header children nodes hopen _ hclose _ ihc ih =>
    -- after the header come the items of the children, the `END`, and what follows
    have hinside : ∀ d : Cursor, d.rest = inner → ∃ items e, Item.Run d items e ∧
        e.rest = rest ∧
        items.map Located.value = itemsBelow children ++ .closeLoop :: itemsBelow nodes := by
      intro d hd
      obtain ⟨first, e, hfirst, hend, hvalues⟩ := ihc hd
      obtain ⟨second, f, hsecond, hlast, hvalues'⟩ :=
        hclose.exists_run_cons hend fun g hg => ih hg
      exact ⟨first ++ second, f, hfirst.append hsecond, hlast, by simp [hvalues, hvalues']⟩
    have hloop := hopen.exists_run_cons hc hinside
    simpa [Node.items] using hloop

/-- Where the items of trees are spelled one after another, the trees are a body. -/
theorem Item.Run.body (h : Item.Run c items d) (hfree : DocumentFreeBelow nodes)
    (hvalues : items.map Located.value = itemsBelow nodes) : Body c.rest nodes d.rest := by
  induction nodes using Node.forest_induction generalizing c d items with
  | nil =>
    obtain rfl := List.map_eq_nil_iff.mp hvalues
    cases h with
    | nil => exact .nil
  | document children nodes ihc ih => exact hfree.1.elim
  | text content nodes ih =>
    obtain ⟨item, more, rfl, hvalue, hmore⟩ := List.map_eq_cons_iff.mp hvalues
    cases h with
    | cons hspell hread hitems =>
      obtain rfl := hvalue
      exact .text hspell (ih hitems hfree.2 hmore)
  | echo elements nodes ih =>
    obtain ⟨item, more, rfl, hvalue, hmore⟩ := List.map_eq_cons_iff.mp hvalues
    cases h with
    | cons hspell hread hitems =>
      obtain rfl := hvalue
      exact .echo hspell (ih hitems hfree.2 hmore)
  | forLoop header children nodes ihc ih =>
    obtain ⟨item, more, rfl, hvalue, hmore⟩ := List.map_eq_cons_iff.mp hvalues
    -- after the header come the items of the children, the `END`, and what follows
    have hsplit : more.map Located.value =
        itemsBelow children ++ .closeLoop :: itemsBelow nodes := by
      simpa [Node.items] using hmore
    obtain ⟨inner, closing, rfl, hinner, hclosing⟩ := List.map_eq_append_iff.mp hsplit
    obtain ⟨last, after, rfl, hlast, hafter⟩ := List.map_eq_cons_iff.mp hclosing
    cases h with
    | cons hspell hread hitems =>
      obtain rfl := hvalue
      obtain ⟨e, hchildren, hrest⟩ := hitems.exists_of_append
      cases hrest with
      | cons hclose hread' hnodes =>
        obtain rfl := hlast
        exact .forLoop hspell (ihc hchildren hfree.1 hinner) hclose (ih hnodes hfree.2 hafter)

end TagTemplate
