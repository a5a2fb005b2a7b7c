import TagTemplate.Character.Word

/-!
# How the character classes of the grammar lie to each other

White space, word characters and digits are read from tables, and a reader tells
the parts of a tag from one another because the tables do not overlap where they
must not.

* `isWordChar_eq_false_of_isWhiteSpace`: white space ends a word.
* `isWordChar_of_isDigit`, `isAlphabetic_eq_false_of_isDigit`: a digit continues a
  word and does not start one.
* `isAlphabetic_of_toUpper_eq`: what has a letter for its capital is a letter.

`Stops` says the same about what follows a run: the run of a class is over, since
nothing follows or something outside of the class does.
-/

namespace TagTemplate
namespace Character

/-- The table of white space, written out code point by code point. -/
theorem codePoint_mem_of_isWhiteSpace {c : Char} (h : isWhiteSpace c = true) :
    c.toNat ∈ whiteSpaceRanges.flatMap fun r => List.range' r.1 (r.2 + 1 - r.1) := by
  obtain ⟨r, hr, hlow, hhigh⟩ := exists_range_of_inRanges h
  rw [List.mem_flatMap]
  exact ⟨r, hr, List.mem_range'_1.mpr ⟨hlow, by omega⟩⟩

/-- White space ends a word. -/
theorem isWordChar_eq_false_of_isWhiteSpace {c : Char} (h : isWhiteSpace c = true) :
    isWordChar c = false := by
  have htables : ∀ n ∈ whiteSpaceRanges.flatMap fun r => List.range' r.1 (r.2 + 1 - r.1),
      inRanges alphabeticRanges n = false ∧ inRanges numericRanges n = false ∧ n ≠ 95 := by
    decide +kernel
  obtain ⟨halpha, hnumeric, hcode⟩ := htables _ (codePoint_mem_of_isWhiteSpace h)
  have hscore : c ≠ '_' := by
    rintro rfl
    exact hcode rfl
  simp [isWordChar, isAlphanumeric, isAlphabetic, isNumeric, halpha, hnumeric, hscore]

theorem isWhiteSpace_eq_false_of_isWordChar {c : Char} (h : isWordChar c = true) :
    isWhiteSpace c = false := by
  cases hc : isWhiteSpace c with
  | false => rfl
  | true => rw [isWordChar_eq_false_of_isWhiteSpace hc] at h; exact absurd h (by simp)

/-- The digits are those between `0` and `9`. -/
theorem codePoint_of_isDigit {c : Char} (h : c.isDigit = true) :
    48 ≤ c.toNat ∧ c.toNat ≤ 57 := by
  simp only [Char.isDigit, Bool.and_eq_true, decide_eq_true_eq, ge_iff_le,
    UInt32.le_iff_toNat_le] at h
  exact h

/-- A digit continues a word. -/
theorem isWordChar_of_isDigit {c : Char} (h : c.isDigit = true) : isWordChar c = true := by
  obtain ⟨hlow, hhigh⟩ := codePoint_of_isDigit h
  have hnumeric : isNumeric c = true := by
    rw [isNumeric, numericRanges, inRanges, if_neg (by omega)]
    simp [hhigh]
  simp [isWordChar, isAlphanumeric, hnumeric]

/-- A digit does not start a word. -/
theorem isAlphabetic_eq_false_of_isDigit {c : Char} (h : c.isDigit = true) :
    isAlphabetic c = false := by
  obtain ⟨-, hhigh⟩ := codePoint_of_isDigit h
  rw [isAlphabetic, alphabeticRanges, inRanges, if_pos (by omega)]

/-- What has a letter for its capital is a letter. -/
theorem isAlphabetic_of_toUpper_eq {c x : Char} (h : c.toUpper = x)
    (hx : isAlphabetic x = true) : isAlphabetic c = true := by
  unfold Char.toUpper at h
  split at h
  · rename_i hlower
    have hlow : 97 ≤ c.toNat := UInt32.le_iff_toNat_le.mp hlower.1
    have hhigh : c.toNat ≤ 122 := UInt32.le_iff_toNat_le.mp hlower.2
    rw [isAlphabetic, alphabeticRanges, inRanges, inRanges, if_neg (by omega), if_neg (by omega),
      decide_eq_true hhigh, Bool.true_or, Bool.or_true]
  · rwa [h]

end Character

/-- What follows a run of the class `p` ends the run. -/
def Stops (p : Char → Bool) (rest : List Char) : Prop := ∀ c ∈ rest.head?, p c = false

@[simp] theorem stops_nil (p : Char → Bool) : Stops p [] := by simp [Stops]

@[simp] theorem stops_cons {p : Char → Bool} {c : Char} {rest : List Char} :
    Stops p (c :: rest) ↔ p c = false := by
  simp [Stops]

/-- A run of a class is split off from what follows it by `takeWhile` and `dropWhile`. -/
theorem takeWhile_append_of_stops {p : Char → Bool} {w rest : List Char}
    (hw : ∀ c ∈ w, p c = true) (hrest : Stops p rest) :
    (w ++ rest).takeWhile p = w ∧ (w ++ rest).dropWhile p = rest := by
  rw [List.takeWhile_append_of_pos hw, List.dropWhile_append_of_pos hw]
  cases rest with
  | nil => simp
  | cons c rest =>
    rw [stops_cons] at hrest
    simp [hrest]

/-- Where a run ends does not depend on how it was put together. -/
theorem append_inj_of_stops {p : Char → Bool} {u v r s : List Char} (hu : ∀ c ∈ u, p c = true)
    (hv : ∀ c ∈ v, p c = true) (hr : Stops p r) (hs : Stops p s) (h : u ++ r = v ++ s) :
    u = v ∧ r = s := by
  obtain ⟨htake, hdrop⟩ := takeWhile_append_of_stops hu hr
  obtain ⟨htake', hdrop'⟩ := takeWhile_append_of_stops hv hs
  rw [h] at htake hdrop
  exact ⟨htake.symm.trans htake', hdrop.symm.trans hdrop'⟩

/-- What `dropWhile` leaves ends the run. -/
theorem stops_dropWhile (p : Char → Bool) (cs : List Char) : Stops p (cs.dropWhile p) := by
  intro c hc
  have h := List.head?_dropWhile_not p cs
  rw [Option.mem_def.mp hc] at h
  simpa using h

end TagTemplate
