import TagTemplate.Character.Word
import TagTemplate.Error

/-!
# A cursor over the characters of a document

A cursor is what is still unread together with the position of its first
character.  Every operation that consumes characters consumes them from the
front, and the position follows them one by one.  `Reads c u d` states exactly
this: from `c`, the characters `u` were read, and `d` is where that leaves the
cursor.  What the readers of this library do to a cursor is stated through it.

## Runs

`takeRun` reads the longest run of characters that a test accepts.  The test may
keep a state of its own: it is asked once for each character, in order, up to the
first one that it refuses.

## Main statements

* `reads_of_eat?`, `eat?_eq_none_iff`: a pattern is eaten exactly where it stands.
* `reads_takeRun`: what a run returns is what it reads.
* `takeWhile_fst_toList`, `takeWhile_snd_rest`: the run of a class is the longest
  stretch of characters of the class.
* `reads_skipWhiteSpace`: skipping reads exactly the white space in front.
-/

namespace TagTemplate

/-- The unread characters and the position of the first of them. -/
structure Cursor where
  rest : List Char
  position : Position
  deriving DecidableEq, Repr

/-- What a reader makes of the characters at a cursor: a value or an error, and
in either case the cursor that it leaves behind. -/
abbrev Reading (α : Type) := Except Error α × Cursor

namespace Cursor

/-- The cursor before the first character of a text. -/
def ofString (text : String) : Cursor := ⟨text.toList, .start⟩

/-- Whether everything has been read. -/
def atEnd (c : Cursor) : Bool := c.rest.isEmpty

/-- The next character. -/
def peek? (c : Cursor) : Option Char := c.rest.head?

/-- The character after the next one. -/
def peekSecond? (c : Cursor) : Option Char := c.rest.tail.head?

/-- What is still unread, as a text. -/
def remaining (c : Cursor) : String := String.ofList c.rest

/-- The next character and the cursor after it. -/
def next? (c : Cursor) : Option (Char × Cursor) :=
  match c.rest with
  | [] => none
  | ch :: rest => some (ch, ⟨rest, c.position.advance ch⟩)

/-- The cursor after the next character; at the end, the cursor itself. -/
def step (c : Cursor) : Cursor :=
  match c.rest with
  | [] => c
  | ch :: rest => ⟨rest, c.position.advance ch⟩

/-- Whether the unread characters start with a pattern. -/
def startsWith (c : Cursor) (pattern : List Char) : Bool := pattern.isPrefixOf c.rest

/-- The cursor after a pattern, if the unread characters start with it. -/
def eat? (c : Cursor) (pattern : List Char) : Option Cursor :=
  if c.startsWith pattern then
    some ⟨c.rest.drop pattern.length, c.position.after pattern⟩
  else none

/-! ## Runs -/

/-- Appends to `taken` the characters that the test accepts, up to the first one
that it refuses. -/
def takeRunFrom {σ : Type} (accepts : σ → Char → Option σ) :
    σ → String → Position → List Char → String × Cursor
  | _, taken, position, [] => (taken, ⟨[], position⟩)
  | state, taken, position, ch :: rest =>
      match accepts state ch with
      | none => (taken, ⟨ch :: rest, position⟩)
      | some state => takeRunFrom accepts state (taken.push ch) (position.advance ch) rest

/-- Reads the longest run that a test with a state accepts. -/
def takeRun {σ : Type} (accepts : σ → Char → Option σ) (state : σ) (c : Cursor) :
    String × Cursor :=
  takeRunFrom accepts state "" c.position c.rest

/-- Reads the longest run of characters of a class. -/
def takeWhile (p : Char → Bool) (c : Cursor) : String × Cursor :=
  c.takeRun (fun _ ch => if p ch then some () else none) ()

/-- The cursor after the characters of a class. -/
def skipWhileFrom (p : Char → Bool) : Position → List Char → Cursor
  | position, [] => ⟨[], position⟩
  | position, ch :: rest =>
      if p ch then skipWhileFrom p (position.advance ch) rest else ⟨ch :: rest, position⟩

/-- The cursor at the next character that is not white space. -/
def skipWhiteSpace (c : Cursor) : Cursor :=
  skipWhileFrom Character.isWhiteSpace c.position c.rest

/-! ## What an operation reads -/

/-- From `c`, the characters `u` are read, and the cursor is then `d`. -/
structure Reads (c : Cursor) (u : List Char) (d : Cursor) : Prop where
  rest_eq : c.rest = u ++ d.rest
  position_eq : d.position = c.position.after u

namespace Reads

theorem refl (c : Cursor) : Reads c [] c := ⟨rfl, rfl⟩

theorem trans {c d e : Cursor} {u v : List Char} (h : Reads c u d) (k : Reads d v e) :
    Reads c (u ++ v) e :=
  ⟨by rw [h.rest_eq, k.rest_eq, List.append_assoc],
    by rw [k.position_eq, h.position_eq, Position.after_append]⟩

/-- Reading one character, then more. -/
theorem cons {ch : Char} {rest u : List Char} {p : Position} {d : Cursor}
    (h : Reads ⟨rest, p.advance ch⟩ u d) : Reads ⟨ch :: rest, p⟩ (ch :: u) d :=
  ⟨congrArg (ch :: ·) h.rest_eq, h.position_eq⟩

theorem length_le {c d : Cursor} {u : List Char} (h : Reads c u d) :
    d.rest.length ≤ c.rest.length := by
  rw [h.rest_eq, List.length_append]; omega

theorem length_lt {c d : Cursor} {u : List Char} (h : Reads c u d) (hu : u ≠ []) :
    d.rest.length < c.rest.length := by
  have := List.length_pos_iff.mpr hu
  rw [h.rest_eq, List.length_append]; omega

end Reads

/-- A pattern that is eaten is exactly what is read. -/
theorem reads_of_eat? {c d : Cursor} {pattern : List Char} (h : c.eat? pattern = some d) :
    Reads c pattern d := by
  unfold eat? at h
  split at h
  · rename_i hp
    obtain ⟨t, ht⟩ := List.isPrefixOf_iff_prefix.mp hp
    obtain rfl := Option.some.inj h
    exact ⟨by simp [← ht], rfl⟩
  · simp at h

/-- A pattern is refused exactly when the unread characters do not start with it. -/
theorem eat?_eq_none_iff {c : Cursor} {pattern : List Char} :
    c.eat? pattern = none ↔ ¬ pattern <+: c.rest := by
  simp [eat?, startsWith]

theorem takeRunFrom_reads {σ : Type} (accepts : σ → Char → Option σ) (state : σ)
    (taken : String) (p : Position) (cs : List Char) :
    ∃ u, (takeRunFrom accepts state taken p cs).1.toList = taken.toList ++ u ∧
      Reads ⟨cs, p⟩ u (takeRunFrom accepts state taken p cs).2 := by
  induction cs generalizing state taken p with
  | nil => exact ⟨[], by simp [takeRunFrom], Reads.refl _⟩
  | cons ch cs ih =>
    cases ha : accepts state ch with
    | none => exact ⟨[], by simp [takeRunFrom, ha], by simpa [takeRunFrom, ha] using Reads.refl _⟩
    | some state' =>
      obtain ⟨u, h1, h2⟩ := ih state' (taken.push ch) (p.advance ch)
      refine ⟨ch :: u, ?_, ?_⟩
      · simp [takeRunFrom, ha, h1]
      · simpa [takeRunFrom, ha] using h2.cons

/-- What `takeRun` returns is what it reads. -/
theorem reads_takeRun {σ : Type} (accepts : σ → Char → Option σ) (state : σ) (c : Cursor) :
    Reads c (c.takeRun accepts state).1.toList (c.takeRun accepts state).2 := by
  obtain ⟨u, h1, h2⟩ := takeRunFrom_reads accepts state "" c.position c.rest
  have h : (c.takeRun accepts state).1.toList = u := by simpa [takeRun] using h1
  rw [h]
  exact h2

/-- What `takeWhile` returns is what it reads. -/
theorem reads_takeWhile (p : Char → Bool) (c : Cursor) :
    Reads c (c.takeWhile p).1.toList (c.takeWhile p).2 :=
  reads_takeRun _ _ c

theorem takeRunFrom_of_test (p : Char → Bool) (taken : String) (pos : Position)
    (cs : List Char) :
    (takeRunFrom (fun (_ : Unit) ch => if p ch then some () else none) () taken pos cs).1.toList =
      taken.toList ++ cs.takeWhile p := by
  induction cs generalizing taken pos with
  | nil => simp [takeRunFrom]
  | cons ch cs ih =>
    by_cases h : p ch <;> simp [takeRunFrom, h, ih]

/-- The run of a class is the longest stretch of such characters. -/
theorem takeWhile_fst_toList (p : Char → Bool) (c : Cursor) :
    (c.takeWhile p).1.toList = c.rest.takeWhile p := by
  simp [takeWhile, takeRun, takeRunFrom_of_test]

/-- After the run of a class stands a character outside of the class, or nothing. -/
theorem takeWhile_snd_rest (p : Char → Bool) (c : Cursor) :
    (c.takeWhile p).2.rest = c.rest.dropWhile p := by
  have h := (reads_takeWhile p c).rest_eq
  rw [takeWhile_fst_toList] at h
  have hsplit : c.rest.takeWhile p ++ (c.takeWhile p).2.rest =
      c.rest.takeWhile p ++ c.rest.dropWhile p := by
    rw [← h, List.takeWhile_append_dropWhile]
  exact List.append_cancel_left hsplit

theorem skipWhileFrom_reads (q : Char → Bool) (p : Position) (cs : List Char) :
    Reads ⟨cs, p⟩ (cs.takeWhile q) (skipWhileFrom q p cs) := by
  induction cs generalizing p with
  | nil => exact Reads.refl _
  | cons ch cs ih =>
    by_cases h : q ch
    · simpa [skipWhileFrom, h, List.takeWhile_cons] using (ih (p.advance ch)).cons
    · simpa [skipWhileFrom, h, List.takeWhile_cons] using Reads.refl _

/-- Skipping white space reads exactly the white space in front. -/
theorem reads_skipWhiteSpace (c : Cursor) :
    Reads c (c.rest.takeWhile Character.isWhiteSpace) c.skipWhiteSpace :=
  skipWhileFrom_reads _ _ _

end Cursor
end TagTemplate
