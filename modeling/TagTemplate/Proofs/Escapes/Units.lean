import Mathlib.Data.List.Infix

/-!
# The units of an escaped text

A text with escapes in it is read unit by unit, where a unit is a backslash with the character
after it, or one other character.  What a character means depends on whether a unit starts
there: the second of two backslashes escapes nothing, and a brace after a backslash opens no
tag.  Nothing of this can be seen from the character in front, since a run of backslashes may be
even or odd; it is a matter of everything from the start.

`Units w` says that `w` ends where a unit does.  `FirstAt p input w rest` says where a reading
that goes from unit to unit first meets what it is looking for: the input is `w` and `rest`,
the units of `w` have been passed, and `p` holds of what is left there and nowhere before.

* `FirstAt.here`, `FirstAt.escape`, `FirstAt.plain`: the first place, one unit at a time.
* `FirstAt.unique`: there is only one.
-/

namespace TagTemplate

/-- The characters are whole units: a backslash with the character after it, or one other
character. -/
inductive Units : List Char → Prop where
  | nil : Units []
  | escape {c : Char} {w : List Char} (h : Units w) : Units ('\\' :: c :: w)
  | plain {c : Char} {w : List Char} (hc : c ≠ '\\') (h : Units w) : Units (c :: w)

/-- When the input is read unit by unit, the end of `w` is the first place where `p` holds of
what is left. -/
structure FirstAt (p : List Char → Prop) (input w rest : List Char) : Prop where
  text_eq : input = w ++ rest
  units : Units w
  holds : p rest
  first : ∀ u v, input = u ++ v → Units u → p v → w <+: u

namespace FirstAt

variable {p : List Char → Prop} {c : Char} {input w w' rest rest' : List Char}

/-- No place is before the front. -/
theorem here (h : p input) : FirstAt p input [] input where
  text_eq := rfl
  units := .nil
  holds := h
  first _ _ _ _ _ := List.nil_prefix

/-- An escape is passed as a whole. -/
theorem escape (hnot : ¬ p ('\\' :: c :: input)) (h : FirstAt p input w rest) :
    FirstAt p ('\\' :: c :: input) ('\\' :: c :: w) rest where
  text_eq := by rw [h.text_eq]; rfl
  units := .escape h.units
  holds := h.holds
  first u v heq hu hv := by
    cases hu with
    | nil =>
      obtain rfl : _ = v := heq
      exact absurd hv hnot
    | @escape d u hu =>
      obtain ⟨rfl, hrest⟩ : c = d ∧ input = u ++ v := by simpa using heq
      exact List.cons_prefix_cons.mpr ⟨rfl, List.cons_prefix_cons.mpr
        ⟨rfl, h.first u v hrest hu hv⟩⟩
    | @plain d u hd hu =>
      obtain ⟨hslash, -⟩ := List.cons.inj heq
      exact absurd hslash.symm hd

/-- A character that is no backslash is passed alone. -/
theorem plain (hc : c ≠ '\\') (hnot : ¬ p (c :: input)) (h : FirstAt p input w rest) :
    FirstAt p (c :: input) (c :: w) rest where
  text_eq := by rw [h.text_eq]; rfl
  units := .plain hc h.units
  holds := h.holds
  first u v heq hu hv := by
    cases hu with
    | nil =>
      obtain rfl : _ = v := heq
      exact absurd hv hnot
    | escape hu =>
      obtain ⟨hslash, -⟩ := List.cons.inj heq
      exact absurd hslash hc
    | @plain d u hd hu =>
      obtain ⟨rfl, hrest⟩ := List.cons.inj heq
      exact List.cons_prefix_cons.mpr ⟨rfl, h.first u v hrest hu hv⟩

/-- **There is one first place.** -/
theorem unique (h : FirstAt p input w rest) (k : FirstAt p input w' rest') :
    w = w' ∧ rest = rest' := by
  have hle := h.first w' rest' k.text_eq k.units k.holds
  have hge := k.first w rest h.text_eq h.units h.holds
  obtain rfl := hle.eq_of_length (Nat.le_antisymm hle.length_le hge.length_le)
  exact ⟨rfl, List.append_cancel_left (h.text_eq.symm.trans k.text_eq)⟩

end FirstAt
end TagTemplate
