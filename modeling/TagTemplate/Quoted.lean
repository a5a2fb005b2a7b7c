import TagTemplate.Cursor
import TagTemplate.Delimiter
import TagTemplate.Fault

/-!
# String literals

Inside a tag a string is written between double quotes.  Five characters have an
escape: the quote, the backslash, the line feed, the carriage return and the tab.
The last three may also be written as they are.

A literal cannot hold the two characters that close a tag: where they stand, the
literal is taken to be left open.  They are looked for before each unit of the
literal, where a unit is a backslash with the character after it, or one other
character.  No escape gives a dollar sign, so no value that is read contains them.
-/

namespace TagTemplate
namespace Quoted

/-- The character that a backslash and `c` stand for together, if any. -/
def unescape? (c : Char) : Option Char :=
  if c = '"' then some '"'
  else if c = '\\' then some '\\'
  else if c = 'n' then some '\n'
  else if c = 'r' then some '\r'
  else if c = 't' then some '\t'
  else none

/-- The written form of one character of a string. -/
def escape (c : Char) : List Char :=
  if c = '"' then ['\\', '"']
  else if c = '\\' then ['\\', '\\']
  else if c = '\n' then ['\\', 'n']
  else if c = '\r' then ['\\', 'r']
  else if c = '\t' then ['\\', 't']
  else [c]

/-- The literal of a string, with its quotes. -/
def encode (value : List Char) : List Char := '"' :: value.flatMap escape ++ ['"']

/-- Appends to `taken` the value of a literal whose opening quote, at `opening`,
has been read.  A literal left open is an error at its opening quote; a backslash
that escapes nothing is an error at the backslash. -/
def scanFrom (opening : Position) (taken : String) (position : Position) :
    List Char → Reading String
  | [] => (.error (Fault.stringCutByEnd.toError opening), ⟨[], position⟩)
  | c :: rest =>
      if c = '$' ∧ rest.head? = some '}' then
        (.error (Fault.stringCutByTag.toError opening), ⟨c :: rest, position⟩)
      else if c = '"' then (.ok taken, ⟨rest, position.advance c⟩)
      else if c = '\\' then
        match rest with
        | [] => (.error (Fault.stringCutByEnd.toError opening), ⟨[], position.advance c⟩)
        | d :: rest =>
            match unescape? d with
            | some value =>
                scanFrom opening (taken.push value) ((position.advance c).advance d) rest
            | none =>
                (.error ((Fault.invalidStringEscape d).toError position),
                  ⟨rest, (position.advance c).advance d⟩)
      else scanFrom opening (taken.push c) (position.advance c) rest

/-- Reads a string literal from its opening quote, which the cursor stands at. -/
def scan (c : Cursor) : Reading String := scanFrom c.position "" c.step.position c.step.rest

/-! ## What is read -/

theorem scanFrom_reads (opening : Position) (taken : String) (p : Position) (cs : List Char) :
    ∃ u, Cursor.Reads ⟨cs, p⟩ u (scanFrom opening taken p cs).2 := by
  fun_induction scanFrom opening taken p cs with
  | case1 => exact ⟨[], .refl _⟩
  | case2 => exact ⟨[], .refl _⟩
  | case3 => exact ⟨_, Cursor.Reads.cons (.refl _)⟩
  | case4 => exact ⟨_, Cursor.Reads.cons (.refl _)⟩
  | case5 _ _ _ _ _ _ _ _ ih =>
    obtain ⟨u, hu⟩ := ih
    exact ⟨_, hu.cons.cons⟩
  | case6 => exact ⟨_, Cursor.Reads.cons (Cursor.Reads.cons (.refl _))⟩
  | case7 _ _ _ _ _ _ _ ih =>
    obtain ⟨u, hu⟩ := ih
    exact ⟨_, hu.cons⟩

/-- Scanning a literal reads its opening quote and a stretch after it. -/
theorem exists_reads_scan {c : Cursor} {ch : Char} {rest : List Char} (h : c.rest = ch :: rest) :
    ∃ u, Cursor.Reads c (ch :: u) (scan c).2 := by
  obtain ⟨cs, p⟩ := c
  obtain rfl : cs = ch :: rest := h
  obtain ⟨u, hu⟩ := scanFrom_reads p "" (p.advance ch) rest
  exact ⟨u, hu.cons⟩

end Quoted
end TagTemplate
