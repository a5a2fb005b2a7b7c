/-!
# Character classes as tables of ranges

A class of characters is given by the closed ranges of code points that belong
to it, in increasing order.  The tables of this library are data of the Unicode
standard, version 17.0; this module only says how such a table is read.
-/

namespace TagTemplate
namespace Character

/-- Whether a code point lies in one of the ranges of an increasing table.  A
range that starts above the code point ends the search, so a character of the
first few ranges costs no more than those. -/
def inRanges : List (Nat × Nat) → Nat → Bool
  | [], _ => false
  | (first, last) :: ranges, n =>
      if n < first then false else n ≤ last || inRanges ranges n

/-- A code point found in a table lies in one of its ranges. -/
theorem exists_range_of_inRanges {ranges : List (Nat × Nat)} {n : Nat}
    (h : inRanges ranges n = true) : ∃ r ∈ ranges, r.1 ≤ n ∧ n ≤ r.2 := by
  induction ranges with
  | nil => simp [inRanges] at h
  | cons r ranges ih =>
    obtain ⟨first, last⟩ := r
    by_cases hlow : n < first
    · simp [inRanges, hlow] at h
    · by_cases hhigh : n ≤ last
      · exact ⟨(first, last), by simp, by simp; omega, hhigh⟩
      · obtain ⟨r, hr, hn⟩ := ih (by simpa [inRanges, hlow, hhigh] using h)
        exact ⟨r, List.mem_cons_of_mem _ hr, hn⟩

end Character
end TagTemplate
