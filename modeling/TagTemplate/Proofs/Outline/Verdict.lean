import TagTemplate.Proofs.Outline.Building
import TagTemplate.Proofs.Outline.Runs

/-!
# The verdict on a document

A document is read as a longest run of items.  What becomes of it depends on three
things only: how the loops lie among the items, the limit, and what stands where the run
ends.  `Verdict` lists the five cases.  The items count from left to right, so the first
offence decides: an `END` too many or a loop too deep before anything that is wrong
further on, and a loop that is left open only if nothing else is wrong.

* `verdict_parse`: the result of reading is the verdict.
* `parse_eq_of_verdict`: there is no other verdict.
* `parse_eq_iff_verdict`: both together.
-/

namespace TagTemplate

open Node (itemsBelow DocumentFreeBelow)

/-- What becomes of a document of which `items` is the longest run, ending at `last`. -/
inductive Verdict (limit : Nat) (items : List (Located Item)) (last : Cursor) :
    Except Error Node → Prop where
  /-- An `END` tag stands where no loop is open. -/
  | unmatchedEnd {p s : List (Located Item)} {position : Position}
      (hitems : items = p ++ ⟨.closeLoop, position⟩ :: s)
      (hbefore : Item.WithinLimit limit (p.map Located.value))
      (hopen : Item.net (p.map Located.value) = 0) :
      Verdict limit items last (.error (Fault.unmatchedEnd.toError position))
  /-- A `FOR` tag stands where as many loops are open as the limit allows. -/
  | nestingTooDeep {p s : List (Located Item)} {header : LoopHeader} {position : Position}
      (hitems : items = p ++ ⟨.openLoop header, position⟩ :: s)
      (hbefore : Item.WithinLimit limit (p.map Located.value))
      (hopen : Item.net (p.map Located.value) = limit) :
      Verdict limit items last (.error (.nestingTooDeep position limit))
  /-- What follows the items is wrong in itself. -/
  | illFormed {error : Error} (hall : Item.WithinLimit limit (items.map Located.value))
      (hwrong : Item.next last = .error error) : Verdict limit items last (.error error)
  /-- The document ends after items that leave loops open.  The innermost one is opened by
  the last `FOR` tag after which all loops are closed again. -/
  | unclosedLoops {p s : List (Located Item)} {header : LoopHeader} {position : Position}
      {count : Nat} (hitems : items = p ++ ⟨.openLoop header, position⟩ :: s)
      (hclosed : Item.Balanced (s.map Located.value))
      (hall : Item.WithinLimit limit (items.map Located.value))
      (hopen : Item.net (items.map Located.value) = count) (hend : last.rest = []) :
      Verdict limit items last (.error ((Fault.unclosedLoops count).toError position))
  /-- The document ends with all loops closed, and walking the tree gives the items. -/
  | accepted {children : List Node} (hall : Item.WithinLimit limit (items.map Located.value))
      (hopen : Item.net (items.map Located.value) = 0) (hend : last.rest = [])
      (hfree : DocumentFreeBelow children)
      (hwalk : itemsBelow children = items.map Located.value) :
      Verdict limit items last (.ok (.document children))

namespace Assembly

variable {limit : Nat} {a b : Assembly} {items p s : List (Located Item)} {item : Located Item}
  {fault : Option Error}

theorem settle_of_refused {error : Error} (hp : p.foldlM (addItem limit) a = .ok b)
    (hitem : b.addItem limit item = .error error) :
    a.settle limit ⟨p ++ item :: s, fault⟩ = .error error := by
  have hfold : (p ++ item :: s).foldlM (addItem limit) a = .error error := by
    rw [foldlM_append_of_ok hp, List.foldlM_cons, hitem]
    rfl
  simp only [settle, hfold]

theorem settle_of_fault {error : Error} (h : items.foldlM (addItem limit) a = .ok b) :
    a.settle limit ⟨items, some error⟩ = .error error := by
  simp only [settle, h]

theorem settle_of_end (h : items.foldlM (addItem limit) a = .ok b) :
    a.settle limit ⟨items, none⟩ = b.finish := by
  simp only [settle, h]

/-- No loop is open in an assembly exactly when the items it records close all of them. -/
theorem Records.loops_eq_nil_iff (h : a.Records limit items) :
    a.loops = [] ↔ Item.net (items.map Located.value) = 0 := by
  have hlength := h.length_eq
  rw [← List.length_eq_zero_iff]
  omega

/-- There is only one `FOR` tag after which all loops are closed again. -/
theorem position_unique_of_balanced {p' s' : List (Located Item)} {header header' : LoopHeader}
    {position position' : Position}
    (heq : p ++ ⟨.openLoop header, position⟩ :: s = p' ++ ⟨.openLoop header', position'⟩ :: s')
    (hs : Item.Balanced (s.map Located.value)) (hs' : Item.Balanced (s'.map Located.value)) :
    position = position' := by
  -- if one of the tags came after the other, it would leave a loop open there
  rcases List.append_eq_append_iff.mp heq with ⟨u, -, hu⟩ | ⟨u, -, hu⟩
  · cases u with
    | nil => exact congrArg Located.position (List.cons.inj hu).1
    | cons first u =>
      obtain rfl : s = u ++ ⟨.openLoop header', position'⟩ :: s' := (List.cons.inj hu).2
      rw [List.map_append] at hs
      exact absurd hs' hs.not_balanced_after_openLoop
  · cases u with
    | nil => exact (congrArg Located.position (List.cons.inj hu).1).symm
    | cons first u =>
      obtain rfl : s' = u ++ ⟨.openLoop header, position⟩ :: s := (List.cons.inj hu).2
      rw [List.map_append] at hs'
      exact absurd hs hs'.not_balanced_after_openLoop

/-- Items that leave loops open end in the error of the innermost one. -/
theorem Records.finish_of_unclosed {header : LoopHeader} {position : Position} {count : Nat}
    (h : b.Records limit items) (hitems : items = p ++ ⟨.openLoop header, position⟩ :: s)
    (hclosed : Item.Balanced (s.map Located.value))
    (hall : Item.WithinLimit limit (items.map Located.value))
    (hopen : Item.net (items.map Located.value) = count) :
    b.finish = .error ((Fault.unclosedLoops count).toError position) := by
  have hlength := h.length_eq
  have hbefore : 0 ≤ Item.net (p.map Located.value) := by
    refine (hall _ ?_).1
    rw [hitems, List.map_append]
    exact List.prefix_append _ _
  have hpos : Item.net (items.map Located.value) = Item.net (p.map Located.value) + 1 := by
    rw [hitems, List.map_append, List.map_cons, Item.net_append, Item.net_cons,
      hclosed.net_eq_zero, Item.delta_openLoop, Int.add_zero]
  unfold Assembly.finish
  cases hloops : b.loops with
  | nil =>
    have hzero := h.loops_eq_nil_iff.mp hloops
    omega
  | cons loop loops =>
    have hopened := h.openedBy
    rw [hloops] at hopened
    obtain ⟨p', s', hitems', hclosed', -⟩ := hopened
    have hposition := position_unique_of_balanced (hitems.symm.trans hitems') hclosed hclosed'
    have hcount : loops.length + 1 = count := by
      rw [hloops, List.length_cons] at hlength
      omega
    simp only [hcount, hposition]

/-- Items that close all loops end in the only trees that have them for their walk. -/
theorem Records.finish_of_closed {children : List Node} (h : b.Records limit items)
    (hopen : Item.net (items.map Located.value) = 0) (hfree : DocumentFreeBelow children)
    (hwalk : itemsBelow children = items.map Located.value) :
    b.finish = .ok (.document children) := by
  have hloops := h.loops_eq_nil_iff.mpr hopen
  have htrace := h.trace_eq
  rw [trace, hloops, traceOf, List.nil_append, ← hwalk] at htrace
  have hnodes : b.nodes.reverse = children :=
    Node.eq_of_itemsBelow_eq (by simpa using h.free_nodes) hfree htrace
  simp only [Assembly.finish, hloops, hnodes]

/-- What becomes of the items when the document ends after them. -/
theorem Records.finish {last : Cursor} (h : b.Records limit items)
    (hall : Item.WithinLimit limit (items.map Located.value)) (hend : last.rest = []) :
    Verdict limit items last b.finish := by
  have hlength := h.length_eq
  unfold Assembly.finish
  cases hloops : b.loops with
  | nil =>
    have htrace := h.trace_eq
    rw [trace, hloops, traceOf, List.nil_append] at htrace
    exact .accepted hall (h.loops_eq_nil_iff.mp hloops) hend (by simpa using h.free_nodes) htrace
  | cons loop loops =>
    have hopened := h.openedBy
    rw [hloops] at hopened hlength
    obtain ⟨p, s, hitems, hclosed, -⟩ := hopened
    exact .unclosedLoops hitems hclosed hall hlength.symm hend

end Assembly

open Assembly (addItem)

variable {limit : Nat} {items : List (Located Item)} {last : Cursor} {document : String}
  {result : Except Error Node}

theorem parse_eq_settle_of_longestRun (h : Item.LongestRun (.ofString document) items last)
    (limit : Nat) :
    parse document ⟨limit⟩ = Assembly.empty.settle limit ⟨items, Item.faultAt last⟩ := by
  rw [parse_eq_settle, outline, h.outlineFrom_eq]

/-- **The result of reading is the verdict on the longest run of items.** -/
theorem verdict_parse (limit : Nat) (h : Item.LongestRun (.ofString document) items last) :
    Verdict limit items last (parse document ⟨limit⟩) := by
  rw [parse_eq_settle_of_longestRun h]
  cases hfold : items.foldlM (addItem limit) .empty with
  | error error =>
    -- the first item that is refused decides
    obtain ⟨p, item, s, b, hitems, hp, hrefused⟩ := Assembly.exists_refused_of_foldlM hfold
    have hbefore := Assembly.exists_foldlM_eq_ok_iff.mp ⟨b, hp⟩
    have hrecords := Assembly.records_of_foldlM hp
    rw [hitems, Assembly.settle_of_refused hp hrefused]
    obtain ⟨value, position⟩ := item
    rcases Assembly.addItem_eq_error_iff.mp hrefused with
      ⟨hvalue, hloops, rfl⟩ | ⟨header, hvalue, hfull, rfl⟩
    · obtain rfl : value = .closeLoop := hvalue
      exact .unmatchedEnd rfl hbefore (hrecords.loops_eq_nil_iff.mp hloops)
    · obtain rfl : value = .openLoop header := hvalue
      have hlength := hrecords.length_eq
      have hle := hrecords.length_le
      exact .nestingTooDeep rfl hbefore (by omega)
  | ok b =>
    have hall := Assembly.exists_foldlM_eq_ok_iff.mp ⟨b, hfold⟩
    have hrecords := Assembly.records_of_foldlM hfold
    unfold Item.faultAt
    rcases Item.next_of_stops h.stops with ⟨hend, hnext⟩ | ⟨error, hnext⟩
    · rw [hnext, Assembly.settle_of_end hfold]
      exact hrecords.finish hall hend
    · rw [hnext, Assembly.settle_of_fault hfold]
      exact .illFormed hall hnext

/-- **There is no other verdict than the result of reading.** -/
theorem parse_eq_of_verdict (h : Item.LongestRun (.ofString document) items last)
    (hverdict : Verdict limit items last result) : parse document ⟨limit⟩ = result := by
  rw [parse_eq_settle_of_longestRun h]
  cases hverdict with
  | unmatchedEnd hitems hbefore hopen =>
    obtain ⟨b, hp⟩ := Assembly.exists_foldlM_eq_ok_iff.mpr hbefore
    have hloops := (Assembly.records_of_foldlM hp).loops_eq_nil_iff.mpr hopen
    rw [hitems]
    exact Assembly.settle_of_refused hp
      (Assembly.addItem_eq_error_iff.mpr (.inl ⟨rfl, hloops, rfl⟩))
  | nestingTooDeep hitems hbefore hopen =>
    obtain ⟨b, hp⟩ := Assembly.exists_foldlM_eq_ok_iff.mpr hbefore
    have hlength := (Assembly.records_of_foldlM hp).length_eq
    rw [hitems]
    exact Assembly.settle_of_refused hp
      (Assembly.addItem_eq_error_iff.mpr (.inr ⟨_, rfl, by omega, rfl⟩))
  | illFormed hall hwrong =>
    obtain ⟨b, hfold⟩ := Assembly.exists_foldlM_eq_ok_iff.mpr hall
    rw [Item.faultAt, hwrong]
    exact Assembly.settle_of_fault hfold
  | unclosedLoops hitems hclosed hall hopen hend =>
    obtain ⟨b, hfold⟩ := Assembly.exists_foldlM_eq_ok_iff.mpr hall
    have hrecords := Assembly.records_of_foldlM hfold
    rw [Item.faultAt, Item.next_eq_none_iff.mpr hend, Assembly.settle_of_end hfold]
    exact hrecords.finish_of_unclosed hitems hclosed hall hopen
  | accepted hall hopen hend hfree hwalk =>
    obtain ⟨b, hfold⟩ := Assembly.exists_foldlM_eq_ok_iff.mpr hall
    have hrecords := Assembly.records_of_foldlM hfold
    rw [Item.faultAt, Item.next_eq_none_iff.mpr hend, Assembly.settle_of_end hfold]
    exact hrecords.finish_of_closed hopen hfree hwalk

/-- **What becomes of a document.**  It is read as one longest run of items, and the
result is the one verdict on that run. -/
theorem parse_eq_iff_verdict (document : String) (limit : Nat) :
    ∃ items last, Item.LongestRun (.ofString document) items last ∧
      ∀ result, parse document ⟨limit⟩ = result ↔ Verdict limit items last result := by
  obtain ⟨last, hlongest, -⟩ := Item.exists_longestRun (.ofString document)
  refine ⟨_, last, hlongest, fun result => ⟨?_, parse_eq_of_verdict hlongest⟩⟩
  rintro rfl
  exact verdict_parse limit hlongest

end TagTemplate
