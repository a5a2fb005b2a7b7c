import TagTemplate.Proofs.Outline.Verdict

/-!
# The language that is accepted

A document is accepted exactly when the grammar derives a tree from it that stays within
the limit on open loops, and that tree is the result.

Both directions go through the items of the document: a tree is derived where its walk
is spelled (`derives_iff_exists_run`), and it is accepted where its walk is the longest
run and keeps to the limit.  A walk determines its tree and a longest run is unique, so a
document derives at most one tree (`Derives.unique`).
-/

namespace TagTemplate

open Node (itemsBelow DocumentFreeBelow)

variable {document : String} {tree tree' : Node} {limit : Nat}

/-- A document derives a tree when the walk of the tree is spelled from the first
character to the last. -/
theorem derives_iff_exists_run : Derives document tree ↔
    ∃ children items last, tree = .document children ∧ DocumentFreeBelow children ∧
      items.map Located.value = itemsBelow children ∧
      Item.LongestRun (.ofString document) items last ∧ last.rest = [] := by
  constructor
  · rintro ⟨children, hbody, rfl⟩
    obtain ⟨items, last, hrun, hend, hvalues⟩ := hbody.exists_run (c := .ofString document) rfl
    exact ⟨children, items, last, rfl, hbody.documentFreeBelow, hvalues,
      ⟨hrun, Item.stops_of_rest_eq_nil hend⟩, hend⟩
  · rintro ⟨children, items, last, rfl, hfree, hvalues, hlongest, hend⟩
    have hbody := hlongest.run.body hfree hvalues
    rw [hend] at hbody
    exact ⟨children, hbody, rfl⟩

/-- **A document derives at most one tree.** -/
theorem Derives.unique (h : Derives document tree) (k : Derives document tree') :
    tree = tree' := by
  obtain ⟨children, items, last, rfl, hfree, hvalues, hrun, -⟩ := derives_iff_exists_run.mp h
  obtain ⟨children', items', last', rfl, hfree', hvalues', hrun', -⟩ :=
    derives_iff_exists_run.mp k
  obtain ⟨rfl, -⟩ := hrun.unique hrun'
  obtain rfl := Node.eq_of_itemsBelow_eq hfree hfree' (hvalues.symm.trans hvalues')
  rfl

/-- A tree that is returned is derived, and within the limit. -/
theorem derives_of_parse (h : parse document ⟨limit⟩ = .ok tree) :
    Derives document tree ∧ tree.nesting ≤ limit := by
  obtain ⟨last, hlongest, -⟩ := Item.exists_longestRun (.ofString document)
  have hverdict := verdict_parse limit hlongest
  rw [h] at hverdict
  cases hverdict with
  | @accepted children hall hopen hend hfree hwalk =>
    refine ⟨derives_iff_exists_run.mpr
      ⟨children, _, last, rfl, hfree, hwalk.symm, hlongest, hend⟩, ?_⟩
    rw [← hwalk] at hall
    exact Node.withinLimit_itemsBelow_iff.mp hall

/-- A tree that is derived within the limit is returned. -/
theorem parse_of_derives (h : Derives document tree) (hlimit : tree.nesting ≤ limit) :
    parse document ⟨limit⟩ = .ok tree := by
  obtain ⟨children, items, last, rfl, hfree, hvalues, hlongest, hend⟩ :=
    derives_iff_exists_run.mp h
  refine parse_eq_of_verdict hlongest (.accepted ?_ ?_ hend hfree hvalues.symm)
  · rw [hvalues]
    exact Node.withinLimit_itemsBelow_iff.mpr hlimit
  · rw [hvalues]
    exact (Node.balanced_itemsBelow children).net_eq_zero

/-- **Exactly the grammar is accepted.**  The result is the tree that the document
derives, of which there is only one, if it stays within the limit. -/
theorem parse_eq_ok_iff_derives (document : String) (limit : Nat) (tree : Node) :
    (parse document ⟨limit⟩ = .ok tree ↔ Derives document tree ∧ tree.nesting ≤ limit) ∧
      (Derives document tree → ∀ other, Derives document other → other = tree) :=
  ⟨⟨derives_of_parse, fun h => parse_of_derives h.1 h.2⟩, fun h _ hother => hother.unique h⟩

end TagTemplate
