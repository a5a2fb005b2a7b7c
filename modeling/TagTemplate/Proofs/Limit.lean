import TagTemplate.Proofs.Acceptance
import TagTemplate.Proofs.Calls

/-!
# The limit on open loops

The limit decides one thing only: whether a loop may be opened.  Two limits therefore lead a
document through the same states up to the first `FOR` tag that the smaller one refuses, and
that refusal is then the result under the smaller limit.

* `Assembly.addItem_eq_or_tooDeep`, `Assembly.foldlM_addItem_eq_or_tooDeep`: one item, and a
  run of items, are treated alike under both limits, or the smaller one refuses a loop.
* `Assembly.foldlM_addItem_eq`: items that are fewer than the limit cannot exceed it, so the
  largest limit of sixty-four bits is none at all for the documents that fit a memory.
* `Node.nestingBelow_le_depthBelow`, `Node.depthBelow_le_nestingBelow`: the height of a tree
  that is read is the number of loops on its deepest path, or one more for a leaf there.
* `parse_limit_exact`: what this says of documents.
-/

namespace TagTemplate

namespace Assembly

variable {limit limit' : Nat} {a b : Assembly} {item : Located Item}

/-! ## One item -/

/-- While fewer loops are open than either limit allows, the limits do not matter. -/
theorem addItem_eq_of_lt (h : a.loops.length < limit) (h' : a.loops.length < limit') :
    a.addItem limit item = a.addItem limit' item := by
  unfold addItem
  cases item.value with
  | text content => rfl
  | echo elements => rfl
  | openLoop header => simp only [openLoop, if_neg (Nat.not_le.mpr h), if_neg (Nat.not_le.mpr h')]
  | closeLoop => rfl

/-- **Two limits treat an item alike, or the smaller one refuses a loop.** -/
theorem addItem_eq_or_tooDeep (hle : limit ≤ limit') :
    a.addItem limit item = a.addItem limit' item ∨
      a.addItem limit item = .error (.nestingTooDeep item.position limit) := by
  rcases Nat.lt_or_ge a.loops.length limit with hlt | hfull
  · exact .inl (addItem_eq_of_lt hlt (Nat.lt_of_lt_of_le hlt hle))
  · cases hvalue : item.value with
    | text content => exact .inl (by simp only [addItem, hvalue])
    | echo elements => exact .inl (by simp only [addItem, hvalue])
    | closeLoop => exact .inl (by simp only [addItem, hvalue])
    | openLoop header => exact .inr (addItem_eq_error_iff.mpr (.inr ⟨header, hvalue, hfull, rfl⟩))

/-- An item opens one loop at most. -/
theorem length_loops_of_addItem (h : a.addItem limit item = .ok b) :
    b.loops.length ≤ a.loops.length + 1 := by
  rcases addItem_cases h with ⟨node, -, -, -, rfl⟩ | ⟨header, -, -, rfl⟩ |
    ⟨loop, loops, -, hloops, rfl⟩
  · exact Nat.le_succ _
  · exact Nat.le_refl _
  · rw [hloops, List.length_cons]
    show loops.length ≤ loops.length + 1 + 1
    omega

/-! ## A run of items -/

/-- **Two limits treat a run of items alike, or the smaller one refuses a loop in it.** -/
theorem foldlM_addItem_eq_or_tooDeep (hle : limit ≤ limit') (items : List (Located Item))
    (a : Assembly) :
    items.foldlM (addItem limit) a = items.foldlM (addItem limit') a ∨
      ∃ position, items.foldlM (addItem limit) a = .error (.nestingTooDeep position limit) := by
  induction items generalizing a with
  | nil => exact .inl rfl
  | cons item items ih =>
    have hitem : a.addItem limit item = a.addItem limit' item ∨
        a.addItem limit item = .error (.nestingTooDeep item.position limit) :=
      addItem_eq_or_tooDeep hle
    rw [List.foldlM_cons, List.foldlM_cons]
    rcases hitem with heq | hdeep
    · rw [heq]
      cases a.addItem limit' item with
      | error error => exact .inl rfl
      | ok b => exact ih b
    · exact .inr ⟨item.position, by rw [hdeep]; rfl⟩

/-- Items that are fewer than a limit allows loops are added as under any larger limit. -/
theorem foldlM_addItem_eq {items : List (Located Item)}
    (h : a.loops.length + items.length ≤ limit) (hle : limit ≤ limit') :
    items.foldlM (addItem limit) a = items.foldlM (addItem limit') a := by
  induction items generalizing a with
  | nil => rfl
  | cons item items ih =>
    rw [List.length_cons] at h
    have hitem : a.addItem limit item = a.addItem limit' item :=
      addItem_eq_of_lt (by omega) (by omega)
    rw [List.foldlM_cons, List.foldlM_cons, hitem]
    cases hadd : a.addItem limit' item with
    | error error => rfl
    | ok b =>
      -- the open loops and the items that are left together do not grow
      have hloops := length_loops_of_addItem hadd
      exact ih (by omega)

/-- Two limits make the same of an outline, or the smaller one refuses a loop. -/
theorem settle_eq_or_tooDeep (hle : limit ≤ limit') (a : Assembly) (o : Outline) :
    a.settle limit o = a.settle limit' o ∨
      ∃ position, a.settle limit o = .error (.nestingTooDeep position limit) := by
  unfold settle
  rcases foldlM_addItem_eq_or_tooDeep hle o.items a with heq | ⟨position, hdeep⟩
  · rw [heq]
    exact .inl rfl
  · rw [hdeep]
    exact .inr ⟨position, rfl⟩

end Assembly

/-! ## The length of a document -/

/-- An outline has no more items than there are characters. -/
theorem length_items_outlineFrom (c : Cursor) :
    (outlineFrom c).items.length ≤ c.rest.length := by
  fun_induction outlineFrom c with
  | case1 => exact Nat.zero_le _
  | case2 => exact Nat.zero_le _
  | case3 c item d h _ ih =>
    have hlt := Item.rest_length_lt_of_next h
    rw [List.length_cons]
    omega

/-- A limit that a document is too short to reach is as good as any larger one. -/
theorem parse_eq_of_length_le {document : String} {limit limit' : Nat}
    (h : document.length ≤ limit) (hle : limit ≤ limit') :
    parse document ⟨limit⟩ = parse document ⟨limit'⟩ := by
  have hitems : (outline document).items.length ≤ document.toList.length :=
    length_items_outlineFrom (.ofString document)
  rw [String.length_toList] at hitems
  have hnone : Assembly.empty.loops.length = 0 := rfl
  rw [parse_eq_settle, parse_eq_settle, Assembly.settle, Assembly.settle,
    Assembly.foldlM_addItem_eq (by omega) hle]

/-! ## The height of a tree -/

namespace Node

/-- A tree is at least as high as it has loops on one path. -/
theorem nestingBelow_le_depthBelow (nodes : List Node) :
    nestingBelow nodes ≤ depthBelow nodes := by
  induction nodes using forest_induction with
  | nil => exact Nat.le_refl _
  | text content nodes ih =>
    rw [nestingBelow, nesting, depthBelow, depth]
    omega
  | echo elements nodes ih =>
    rw [nestingBelow, nesting, depthBelow, depth]
    omega
  | forLoop header children nodes ihc ih =>
    rw [nestingBelow, nesting, depthBelow, depth]
    omega
  | document children nodes ihc ih =>
    rw [nestingBelow, nesting, depthBelow, depth]
    omega

/-- Without document nodes, only a leaf makes a tree higher than it has loops on one path. -/
theorem depthBelow_le_nestingBelow {nodes : List Node} (h : DocumentFreeBelow nodes) :
    depthBelow nodes ≤ nestingBelow nodes + 1 := by
  induction nodes using forest_induction with
  | nil => exact Nat.zero_le _
  | text content nodes ih =>
    have hrest := ih h.2
    rw [nestingBelow, nesting, depthBelow, depth]
    omega
  | echo elements nodes ih =>
    have hrest := ih h.2
    rw [nestingBelow, nesting, depthBelow, depth]
    omega
  | forLoop header children nodes ihc ih =>
    have hchildren := ihc h.1
    have hrest := ih h.2
    rw [nestingBelow, nesting, depthBelow, depth]
    omega
  | document children nodes ihc ih => exact h.1.elim

end Node

/-! ## Documents -/

variable {document : String} {tree : Node} {limit limit' : Nat}

/-- Two limits give the same result, or the smaller one refuses a loop. -/
theorem parse_eq_or_tooDeep (hle : limit ≤ limit') (document : String) :
    parse document ⟨limit⟩ = parse document ⟨limit'⟩ ∨
      ∃ position, parse document ⟨limit⟩ = .error (.nestingTooDeep position limit) := by
  rw [parse_eq_settle, parse_eq_settle]
  exact Assembly.settle_eq_or_tooDeep hle .empty (outline document)

/-- A limit below the nesting of the tree refuses a loop. -/
theorem parse_of_lt_nesting (h : Derives document tree) (hlt : limit < tree.nesting) :
    ∃ position, parse document ⟨limit⟩ = .error (.nestingTooDeep position limit) := by
  rcases parse_eq_or_tooDeep (Nat.le_of_lt hlt) document with heq | hdeep
  · -- under its nesting the tree is read, and under a smaller limit it is not
    rw [parse_of_derives h (Nat.le_refl _)] at heq
    have hle := (derives_of_parse heq).2
    omega
  · exact hdeep

/-- The height of a tree that is derived is its nesting, or one more. -/
theorem Derives.depth_bounds (h : Derives document tree) :
    tree.nesting ≤ tree.depth ∧ tree.depth ≤ tree.nesting + 1 := by
  obtain ⟨children, hbody, rfl⟩ := h
  exact ⟨Node.nestingBelow_le_depthBelow children,
    Node.depthBelow_le_nestingBelow hbody.documentFreeBelow⟩

/-- **The limit is exact, and it changes nothing else.**  Under two limits a document has the
same result, or the smaller one refuses a loop.  A tree that is read under any limit is read
under exactly the limits that its nesting does not exceed, and the others refuse a loop; its
height is its nesting or one more.  The largest limit of sixty-four bits is no limit to a
document that is not longer than that. -/
theorem parse_limit_exact (document : String) :
    (∀ limit limit', limit ≤ limit' →
      parse document ⟨limit⟩ = parse document ⟨limit'⟩ ∨
        ∃ position, parse document ⟨limit⟩ = .error (.nestingTooDeep position limit)) ∧
    (∀ limit' tree, parse document ⟨limit'⟩ = .ok tree →
      (∀ limit, (tree.nesting ≤ limit → parse document ⟨limit⟩ = .ok tree) ∧
        (limit < tree.nesting →
          ∃ position, parse document ⟨limit⟩ = .error (.nestingTooDeep position limit))) ∧
      tree.nesting ≤ tree.depth ∧ tree.depth ≤ tree.nesting + 1) ∧
    (document.length ≤ ParseOptions.largestLimit → ∀ limit, ParseOptions.largestLimit ≤ limit →
      parse document .unbounded = parse document ⟨limit⟩) := by
  refine ⟨fun limit limit' hle => parse_eq_or_tooDeep hle document, fun limit' tree hparse => ?_,
    fun hlength limit hle => parse_eq_of_length_le hlength hle⟩
  obtain ⟨hderives, -⟩ := derives_of_parse hparse
  exact ⟨fun limit => ⟨parse_of_derives hderives, parse_of_lt_nesting hderives⟩,
    hderives.depth_bounds⟩

/-- One loop: it is read under the limit one, and refused under the limit zero. -/
theorem parse_limit_exact_of_loop :
    (0 ≤ 1 ∧
      (parse "\x7b$ FOR i 0 3 $\x7d\x7b$END$\x7d" ⟨0⟩ =
          parse "\x7b$ FOR i 0 3 $\x7d\x7b$END$\x7d" ⟨1⟩ ∨
        ∃ position, parse "\x7b$ FOR i 0 3 $\x7d\x7b$END$\x7d" ⟨0⟩ =
          .error (.nestingTooDeep position 0))) ∧
    (parse "\x7b$ FOR i 0 3 $\x7d\x7b$END$\x7d" ⟨1⟩ =
        .ok (.document [.forLoop ⟨.var "i", .integer 0, .integer 3, none⟩ []]) ∧
      ∃ position, parse "\x7b$ FOR i 0 3 $\x7d\x7b$END$\x7d" ⟨0⟩ =
        .error (.nestingTooDeep position 0)) ∧
    ("\x7b$ FOR i 0 3 $\x7d\x7b$END$\x7d".length ≤ ParseOptions.largestLimit ∧
      parse "\x7b$ FOR i 0 3 $\x7d\x7b$END$\x7d" .unbounded =
        parse "\x7b$ FOR i 0 3 $\x7d\x7b$END$\x7d" ⟨ParseOptions.largestLimit + 1⟩) := by
  have hends : Assembly.Ends 1 (.ofString "\x7b$ FOR i 0 3 $\x7d\x7b$END$\x7d") .empty 10
      (Lexer.after "\x7b$ FOR i 0 3 $\x7d\x7b$END$\x7d" 10)
      (.ok (.document [.forLoop ⟨.var "i", .integer 0, .integer 3, none⟩ []])) :=
    .unfinished rfl <| .unfinished rfl <| .unfinished rfl <| .unfinished rfl <|
      .unfinished rfl <| .unfinished rfl <| .unfinished rfl <| .unfinished rfl <|
      .unfinished rfl <| .finished rfl
  have hparse : parse "\x7b$ FOR i 0 3 $\x7d\x7b$END$\x7d" ⟨1⟩ = .ok _ := hends.run_eq
  obtain ⟨hpair, htree, hlong⟩ := parse_limit_exact "\x7b$ FOR i 0 3 $\x7d\x7b$END$\x7d"
  exact ⟨⟨by decide, hpair 0 1 (by decide)⟩,
    ⟨hparse, ((htree 1 _ hparse).1 0).2 (by decide)⟩,
    by decide, hlong (by decide) _ (Nat.le_succ _)⟩

end TagTemplate
