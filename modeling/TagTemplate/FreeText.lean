import TagTemplate.Cursor
import TagTemplate.Delimiter
import TagTemplate.Fault

/-!
# Free text

Outside of tags a document is literal text.  A backslash is written twice, and a
brace may be written after a backslash; a brace has to be written so only where a
tag would open otherwise.  No other character may follow a backslash, and nothing
else is changed, white space included.

`encode` writes a text with every backslash and every brace escaped.  `scan`
reads a text up to the next tag or the end of the document.  It reads a bare
brace as well, so a text has many written forms of which `encode` gives one.

`exists_reads_scan` states that a scan reads a stretch from the front, and that it
reads nothing only at the end or where a tag opens.
-/

namespace TagTemplate
namespace FreeText

/-- The written form of one character of a text. -/
def escape (c : Char) : List Char :=
  if c = '\\' then ['\\', '\\'] else if c = '{' then ['\\', '{'] else [c]

/-- The written form of a text, in which no tag opens. -/
def encode (text : List Char) : List Char := text.flatMap escape

/-- Appends to `taken` the text up to the next tag or the end of the document.
On a backslash that escapes nothing it fails at the backslash, having read what
stands after it. -/
def scanFrom (taken : String) (position : Position) : List Char → Reading String
  | [] => (.ok taken, ⟨[], position⟩)
  | c :: rest =>
      if c = '\\' then
        match rest with
        | [] => (.error (Fault.loneBackslash.toError position), ⟨[], position.advance c⟩)
        | d :: rest =>
            if d = '\\' ∨ d = '{' then
              scanFrom (taken.push d) ((position.advance c).advance d) rest
            else
              (.error ((Fault.malformedEscape d).toError position),
                ⟨rest, (position.advance c).advance d⟩)
      else if c = '{' ∧ rest.head? = some '$' then (.ok taken, ⟨c :: rest, position⟩)
      else scanFrom (taken.push c) (position.advance c) rest

/-- Reads free text up to the next tag or the end of the document.  The text is
empty when a tag opens at the cursor or nothing is left. -/
def scan (c : Cursor) : Reading String := scanFrom "" c.position c.rest

/-! ## What is read -/

/-- A stretch of characters is read from the front, and it is empty only at the
end or where a tag opens. -/
theorem scanFrom_reads (taken : String) (p : Position) (cs : List Char) :
    ∃ u, Cursor.Reads ⟨cs, p⟩ u (scanFrom taken p cs).2 ∧ (u = [] → cs = [] ∨ tagOpen <+: cs) := by
  fun_induction scanFrom taken p cs with
  | case1 => exact ⟨[], .refl _, fun _ => .inl rfl⟩
  | case2 => exact ⟨_, Cursor.Reads.cons (.refl _), by simp⟩
  | case3 _ _ _ _ _ ih =>
    obtain ⟨u, hu, _⟩ := ih
    exact ⟨_, hu.cons.cons, by simp⟩
  | case4 => exact ⟨_, Cursor.Reads.cons (Cursor.Reads.cons (.refl _)), by simp⟩
  | case5 _ _ c rest _ h =>
    obtain ⟨rfl, h⟩ := h
    refine ⟨[], .refl _, fun _ => .inr ?_⟩
    cases rest with
    | nil => simp at h
    | cons d rest =>
      obtain rfl : d = '$' := by simpa using h
      exact ⟨rest, rfl⟩
  | case6 _ _ _ _ _ _ ih =>
    obtain ⟨u, hu, _⟩ := ih
    exact ⟨_, hu.cons, by simp⟩

/-- Scanning reads a stretch of characters from the front. -/
theorem exists_reads_scan (c : Cursor) :
    ∃ u, Cursor.Reads c u (scan c).2 ∧ (u = [] → c.rest = [] ∨ tagOpen <+: c.rest) :=
  scanFrom_reads "" c.position c.rest

end FreeText
end TagTemplate
