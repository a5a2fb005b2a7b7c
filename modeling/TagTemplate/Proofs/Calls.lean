import TagTemplate.Proofs.Outline.Assembly
import TagTemplate.Proofs.Protocol

/-!
# The calls of one reading

A document is read by calls for the next token, one after another, and what has been read so
far decides after each of them whether there is another.  `Assembly.Ends` describes such a
reading from any moment on: how many calls it still makes, which lexer the last of them leaves,
and the result.

* `Assembly.exists_ends_run`: a reading ends, with the result of `Assembly.run`, and makes at
  most one call more than there are characters left.
* `Assembly.Ends.unique`: it ends in one way only.
* `Assembly.Ends.last_eq_after`: its calls are the first calls for tokens of the document, so
  what is known of `Lexer.after` is known of them.
* `Assembly.Ends.replay`: a document whose calls are answered alike is read with the same
  result.
-/

namespace TagTemplate

/-! ## What the calls read -/

/-- What is read on the way from one cursor to another is determined. -/
theorem Cursor.Reads.eq_of_eq {c d : Cursor} {u v : List Char} (h : Reads c u d)
    (k : Reads c v d) : u = v :=
  List.append_cancel_right (h.rest_eq.symm.trans k.rest_eq)

/-- Calls read on from where the calls before have stopped. -/
theorem Lexer.exists_reads_after (document : String) (m k : Nat) :
    ∃ u, Cursor.Reads (after document m).cursor u (after document (m + k)).cursor := by
  induction k with
  | zero => exact ⟨[], .refl _⟩
  | succ k ih =>
    obtain ⟨u, hu⟩ := ih
    obtain ⟨v, hv, -⟩ := next_advances (after document (m + k))
    exact ⟨u ++ v, hu.trans hv⟩

theorem Lexer.exists_reads_from_start (document : String) (n : Nat) :
    ∃ u, Cursor.Reads (.ofString document) u (after document n).cursor := by
  obtain ⟨u, hu⟩ := exists_reads_after document 0 n
  rw [Nat.zero_add] at hu
  exact ⟨u, hu⟩

/-! ## Whole readings -/

namespace Assembly

/-- From a lexer and a tree under construction, the reading ends after so many calls for a
token.  `last` is the lexer that the last call leaves. -/
inductive Ends (limit : Nat) : Lexer → Assembly → Nat → Lexer → Except Error Node → Prop where
  /-- The call returns an error, or its token is refused. -/
  | error {lexer : Lexer} {a : Assembly} {error : Error}
      (h : a.step limit lexer = .error error) : Ends limit lexer a 1 lexer.next.2 (.error error)
  /-- The token is the end of the document, and completes the tree. -/
  | finished {lexer last : Lexer} {a : Assembly} {document : Node}
      (h : a.step limit lexer = .ok (.finished document, last)) :
      Ends limit lexer a 1 last (.ok document)
  /-- The token is added, and another one is called for. -/
  | unfinished {lexer rest last : Lexer} {a b : Assembly} {calls : Nat}
      {result : Except Error Node} (h : a.step limit lexer = .ok (.unfinished b, rest))
      (hmore : Ends limit rest b calls last result) : Ends limit lexer a (calls + 1) last result

variable {limit calls calls' n : Nat} {lexer lexer' rest last last' : Lexer} {a : Assembly}
  {result result' : Except Error Node} {document document' : String}

/-- A step asks for one token, and what it makes of the answer does not depend on the lexer. -/
theorem step_eq_map (limit : Nat) (lexer : Lexer) (a : Assembly) :
    a.step limit lexer = (lexer.next.1.bind (a.accept limit)).map (·, lexer.next.2) := by
  rw [step]
  rcases lexer.next with ⟨error | token, rest⟩ <;> rfl

theorem step_eq_error_iff {error : Error} : a.step limit lexer = .error error ↔
    lexer.next.1.bind (a.accept limit) = .error error := by
  rw [step_eq_map]
  cases lexer.next.1.bind (a.accept limit) <;> simp [Except.map]

theorem step_eq_ok_iff {progress : Progress} : a.step limit lexer = .ok (progress, rest) ↔
    lexer.next.1.bind (a.accept limit) = .ok progress ∧ lexer.next.2 = rest := by
  rw [step_eq_map]
  cases lexer.next.1.bind (a.accept limit) <;> simp [Except.map]

/-- A step that ends in no error has added a token. -/
theorem exists_token_of_step {progress : Progress}
    (h : a.step limit lexer = .ok (progress, rest)) :
    ∃ token, lexer.next = (.ok token, rest) ∧ a.accept limit token = .ok progress := by
  obtain ⟨haccept, rfl⟩ := step_eq_ok_iff.mp h
  rcases hnext : lexer.next with ⟨error | token, rest⟩
  · rw [hnext] at haccept
    exact absurd haccept (by simp [Except.bind])
  · rw [hnext] at haccept
    exact ⟨token, rfl, haccept⟩

/-- Only the end of the document finishes the tree. -/
theorem eq_endOfInput_of_finished {token : Located Token} {tree : Node}
    (h : a.accept limit token = .ok (.finished tree)) : token.value = .endOfInput := by
  unfold accept at h
  cases hplace : a.place <;> cases htoken : token.value <;>
    simp_all [misplaced, map_eq_ok_iff]

/-- **A reading ends**, after at most one call more than there are characters left. -/
theorem exists_ends_run (limit : Nat) (lexer : Lexer) (a : Assembly) :
    ∃ calls last, Ends limit lexer a calls last (a.run limit lexer) ∧
      calls ≤ lexer.cursor.rest.length + 1 := by
  fun_induction Assembly.run limit lexer a with
  | case1 lexer a error h => exact ⟨1, _, .error h, by omega⟩
  | case2 lexer a document last h => exact ⟨1, last, .finished h, by omega⟩
  | case3 lexer a b rest h hlt ih =>
    obtain ⟨calls, last, hmore, hcalls⟩ := ih
    exact ⟨calls + 1, last, .unfinished h hmore, by omega⟩

namespace Ends

/-- A reading ends in one way only. -/
theorem unique (h : Ends limit lexer a calls last result)
    (k : Ends limit lexer a calls' last' result') :
    calls = calls' ∧ last = last' ∧ result = result' := by
  induction h generalizing calls' with
  | error h =>
    cases k with
    | error k => simp_all
    | finished k => simp_all
    | unfinished k _ => simp_all
  | finished h =>
    cases k with
    | error k => simp_all
    | finished k => simp_all
    | unfinished k _ => simp_all
  | unfinished h _ ih =>
    cases k with
    | error k => simp_all
    | finished k => simp_all
    | unfinished k hmore =>
      obtain ⟨⟨rfl⟩, rfl⟩ : _ ∧ _ := by simpa using h.symm.trans k
      obtain ⟨rfl, rfl, rfl⟩ := ih hmore
      exact ⟨rfl, rfl, rfl⟩

/-- The result of a reading that ends is that of `Assembly.run`. -/
theorem run_eq (h : Ends limit lexer a calls last result) : a.run limit lexer = result := by
  obtain ⟨_, _, hrun, -⟩ := exists_ends_run limit lexer a
  exact (hrun.unique h).2.2

/-- The calls of a reading are the next calls for tokens of the document. -/
theorem last_eq_after (h : Ends limit (Lexer.after document n) a calls last result) :
    last = Lexer.after document (n + calls) := by
  generalize hlexer : Lexer.after document n = lexer at h
  induction h generalizing n with
  | error h => exact congrArg (·.next.2) hlexer.symm
  | finished h =>
    obtain rfl := (step_eq_ok_iff.mp h).2
    exact congrArg (·.next.2) hlexer.symm
  | unfinished h _ ih =>
    obtain rfl := (step_eq_ok_iff.mp h).2
    rw [ih (n := n + 1) (congrArg (·.next.2) hlexer), Nat.add_right_comm, Nat.add_assoc]

/-- A document whose calls are answered alike is read with the same result. -/
theorem replay (h : Ends limit (Lexer.after document n) a calls last result)
    (hanswers : ∀ i < n + calls,
      (Lexer.after document i).next.1 = (Lexer.after document' i).next.1) :
    Ends limit (Lexer.after document' n) a calls (Lexer.after document' (n + calls)) result := by
  -- the induction is on the reading, which goes on from the call `n`
  generalize hlexer : Lexer.after document n = lexer at h
  induction h generalizing n with
  | error h =>
    rw [step_eq_error_iff, ← hlexer, hanswers n (by omega), ← step_eq_error_iff] at h
    exact .error h
  | finished h =>
    obtain ⟨hprogress, -⟩ := step_eq_ok_iff.mp h
    rw [← hlexer, hanswers n (by omega)] at hprogress
    exact .finished (step_eq_ok_iff.mpr ⟨hprogress, rfl⟩)
  | @unfinished lexer rest last a b calls result h _ ih =>
    obtain ⟨hprogress, rfl⟩ := step_eq_ok_iff.mp h
    rw [← hlexer, hanswers n (by omega)] at hprogress
    have hmore := ih (n := n + 1) (fun i hi => hanswers i (by omega))
      (congrArg (·.next.2) hlexer)
    rw [Nat.add_right_comm, Nat.add_assoc] at hmore
    exact .unfinished (step_eq_ok_iff.mpr ⟨hprogress, rfl⟩) hmore

end Ends
end Assembly

/-- Reading a document ends with its result, after at most one call more than the document has
characters. -/
theorem exists_ends_parse (document : String) (limit : Nat) : ∃ calls last,
    Assembly.Ends limit (Lexer.after document 0) .empty calls last (parse document ⟨limit⟩) ∧
      calls ≤ document.length + 1 := by
  obtain ⟨calls, last, hends, hcalls⟩ :=
    Assembly.exists_ends_run limit (.ofString document) .empty
  rw [← String.length_toList]
  exact ⟨calls, last, hends, hcalls⟩

end TagTemplate
