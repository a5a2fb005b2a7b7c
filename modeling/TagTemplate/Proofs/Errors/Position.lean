import Mathlib.Data.List.DropRight
import TagTemplate.Position

/-!
# The place that a position names

A position is a line and a column, and says nothing about the text.  `Position.Splits` ties
the two together: the text is in two parts, the line counts the line feeds of the first part,
and the column counts the characters after the last of them.  It says this without following
the text character by character, as a cursor does.

* `Position.after_start`: the position that a cursor has reached splits the text there.
* `Position.Splits.unique`: no position splits a text at two places.
-/

namespace TagTemplate
namespace Position

/-- The position is that of the end of `before`, when `after` is what follows in the text. -/
structure Splits (position : Position) (text before after : List Char) : Prop where
  text_eq : text = before ++ after
  line_eq : position.line = 1 + before.count '\n'
  column_eq : position.column = 1 + (before.rtakeWhile (· ≠ '\n')).length

/-- The position that is reached from the start, said without going there. -/
theorem after_start (cs : List Char) :
    start.after cs = ⟨1 + cs.count '\n', 1 + (cs.rtakeWhile (· ≠ '\n')).length⟩ := by
  induction cs using List.reverseRecOn with
  | nil => rfl
  | append_singleton cs c ih =>
    rw [after_append, ih, after_cons, after_nil, advance]
    split
    · rename_i hc
      rw [hc, List.rtakeWhile_concat_neg _ _ _ (by simp)]
      simp [Nat.add_assoc]
    · rename_i hc
      rw [List.rtakeWhile_concat_pos _ _ _ (by simpa using hc)]
      simp [hc, Nat.add_assoc]

theorem splits_of_after {before after : List Char} :
    (start.after before).Splits (before ++ after) before after where
  text_eq := rfl
  line_eq := by rw [after_start]
  column_eq := by rw [after_start]

/-- A stretch of text leads to a later line, or on the same line as far as it is long. -/
theorem line_lt_or_column_eq (p : Position) (cs : List Char) :
    p.line < (p.after cs).line ∨
      (p.line = (p.after cs).line ∧ p.column + cs.length = (p.after cs).column) := by
  induction cs generalizing p with
  | nil => exact .inr ⟨rfl, rfl⟩
  | cons c cs ih =>
    have hmore := ih (p.advance c)
    rw [after_cons, List.length_cons]
    unfold advance at hmore ⊢
    split at hmore
    · rename_i hc
      rw [if_pos hc]
      simp only at hmore
      omega
    · rename_i hc
      rw [if_neg hc]
      simp only at hmore
      omega

/-- Only the empty stretch leads nowhere. -/
theorem eq_nil_of_after_eq {p : Position} {cs : List Char} (h : p.after cs = p) : cs = [] := by
  have hmoved := line_lt_or_column_eq p cs
  rw [h] at hmoved
  exact List.length_eq_zero_iff.mp (by omega)

namespace Splits

variable {position : Position} {text before after before' after' : List Char}

theorem eq_after (h : position.Splits text before after) : position = start.after before := by
  rw [after_start, ← h.line_eq, ← h.column_eq]

/-- A second split at the position is not further on. -/
theorem eq_nil_of_append {u : List Char} (h : position.Splits text before after)
    (k : position.Splits text (before ++ u) after') : u = [] := by
  have hafter := k.eq_after
  rw [after_append, ← h.eq_after] at hafter
  exact eq_nil_of_after_eq hafter.symm

/-- **A position names one place.** -/
theorem unique (h : position.Splits text before after) (k : position.Splits text before' after') :
    before = before' ∧ after = after' := by
  have heq := h.text_eq.symm.trans k.text_eq
  rcases List.append_eq_append_iff.mp heq with ⟨u, rfl, rfl⟩ | ⟨u, rfl, rfl⟩
  · obtain rfl := h.eq_nil_of_append k
    simp
  · obtain rfl := k.eq_nil_of_append h
    simp

end Splits
end Position
end TagTemplate
