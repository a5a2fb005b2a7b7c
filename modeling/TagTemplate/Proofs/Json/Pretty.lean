import TagTemplate.Json.Basic
import TagTemplate.Proofs.Json.Scalars

/-!
# The pretty text is the compact text with white space

Taking away the white space of a JSON text needs to know where its strings are, and a quote
inside a string is told from the closing one by the backslash in front of it.  `Place` is
what has to be remembered, and `withoutBlanks` takes the white space away.

`withoutBlanks_pretty`: what is left of the pretty text of a value is its compact text.  The
two writers go through a value in the same order, so it is shown for both of them at once that
what they have written so far stays related (`Strips`).
-/

namespace TagTemplate
namespace Json

/-- Where in a text a character stands. -/
inductive Place where
  /-- Outside of all strings. -/
  | between
  /-- In a string. -/
  | inString
  /-- In a string, right after the backslash of an escape. -/
  | escaped

/-- The place of the character after `c`. -/
def Place.after (c : Char) : Place → Place
  | between => if c = '"' then inString else between
  | inString => if c = '"' then between else if c = '\\' then escaped else inString
  | escaped => inString

/-- The characters that are not white space outside of strings. -/
def keepFrom : Place → List Char → List Char
  | _, [] => []
  | .between, c :: cs =>
      if c.isWhitespace then keepFrom .between cs else c :: keepFrom (Place.between.after c) cs
  | place, c :: cs => c :: keepFrom (place.after c) cs

/-- The text without the white space outside of its strings. -/
def withoutBlanks (text : String) : String := String.ofList (keepFrom .between text.toList)

/-- Without its white space the first text is the second, whatever follows. -/
def Strips (u v : List Char) : Prop :=
  ∀ rest, keepFrom .between (u ++ rest) = v ++ keepFrom .between rest

namespace Strips

variable {u v u' v' : List Char}

theorem append (h : Strips u v) (h' : Strips u' v') : Strips (u ++ u') (v ++ v') := by
  intro rest
  rw [List.append_assoc, h, h', List.append_assoc]

/-- What has neither white space nor strings stays. -/
theorem of_plain (h : ∀ c ∈ u, c.isWhitespace = false ∧ c ≠ '"') : Strips u u := by
  intro rest
  induction u with
  | nil => rfl
  | cons c u ih =>
    rw [List.forall_mem_cons] at h
    have hplace : Place.between.after c = .between := if_neg h.1.2
    rw [List.cons_append, keepFrom, if_neg (by simp [h.1.1]), hplace, ih h.2, List.cons_append]

/-- White space goes. -/
theorem of_blank (h : ∀ c ∈ u, c.isWhitespace = true) : Strips u [] := by
  intro rest
  induction u with
  | nil => rfl
  | cons c u ih =>
    rw [List.forall_mem_cons] at h
    rw [List.cons_append, keepFrom, if_pos h.1, ih h.2]

end Strips

/-- The written form of a character holds a quote or a backslash only as the two characters
that start an escape. -/
theorem escape_cases (c : Char) :
    (escape c = [c] ∧ c ≠ '"' ∧ c ≠ '\\') ∨
      ∃ d tail, escape c = '\\' :: d :: tail ∧ ∀ x ∈ tail, x ≠ '"' ∧ x ≠ '\\' := by
  unfold escape
  split
  · exact .inr ⟨_, [], rfl, by simp⟩
  split
  · exact .inr ⟨_, [], rfl, by simp⟩
  split
  · exact .inr ⟨_, [], rfl, by simp⟩
  split
  · exact .inr ⟨_, [], rfl, by simp⟩
  split
  · exact .inr ⟨_, [], rfl, by simp⟩
  split
  · exact .inr ⟨_, [], rfl, by simp⟩
  split
  · exact .inr ⟨_, [], rfl, by simp⟩
  split
  · rename_i hcontrol
    have hhex : ∀ n < 16, n.digitChar ≠ '"' ∧ n.digitChar ≠ '\\' := by decide
    have hhigh := hhex (c.toNat / 16) (by omega)
    have hlow := hhex (c.toNat % 16) (by omega)
    exact .inr ⟨'u', _, rfl, by simp [hhigh, hlow]⟩
  · exact .inl ⟨rfl, ‹_›, ‹_›⟩

/-- In a string what is neither a quote nor a backslash stays, and the string is not left. -/
theorem keepFrom_inString {cs : List Char} (h : ∀ c ∈ cs, c ≠ '"' ∧ c ≠ '\\')
    (rest : List Char) : keepFrom .inString (cs ++ rest) = cs ++ keepFrom .inString rest := by
  induction cs with
  | nil => rfl
  | cons c cs ih =>
    rw [List.forall_mem_cons] at h
    have hplace : Place.inString.after c = .inString := by
      rw [Place.after, if_neg h.1.1, if_neg h.1.2]
    rw [List.cons_append, keepFrom, hplace, ih h.2, List.cons_append]
    exact Place.noConfusion

/-- In a string a written character stays, and the string is not left. -/
theorem keepFrom_escape (c : Char) (rest : List Char) :
    keepFrom .inString (escape c ++ rest) = escape c ++ keepFrom .inString rest := by
  rcases escape_cases c with ⟨hplain, hc⟩ | ⟨d, tail, hescape, htail⟩
  · rw [hplain]
    exact keepFrom_inString (by simpa using hc) rest
  · rw [hescape]
    exact congrArg ('\\' :: d :: ·) (keepFrom_inString htail rest)

/-- A string stays. -/
theorem strips_stringText (value : String) :
    Strips (stringText value).toList (stringText value).toList := by
  intro rest
  have hinside : ∀ cs : List Char, keepFrom .inString (cs.flatMap escape ++ '"' :: rest) =
      cs.flatMap escape ++ '"' :: keepFrom .between rest := by
    intro cs
    induction cs with
    | nil => rfl
    | cons c cs ih =>
      rw [List.flatMap_cons, List.append_assoc, keepFrom_escape, ih, List.append_assoc]
  simp only [toList_stringText, List.cons_append, List.append_assoc, List.nil_append]
  exact congrArg ('"' :: ·) (hinside value.toList)

/-! ## The two writers -/

/-- Without its white space the first text is the second. -/
def Tracks (out out' : String) : Prop := Strips out.toList out'.toList

namespace Tracks

variable {s t s' t' : String}

theorem append (h : Tracks s t) (h' : Tracks s' t') : Tracks (s ++ s') (t ++ t') := by
  rw [Tracks, String.toList_append, String.toList_append]
  exact Strips.append h h'

theorem append_blank (h : Tracks s t) (h' : Tracks s' "") : Tracks (s ++ s') t := by
  have happend := h.append h'
  rwa [String.append_empty] at happend

end Tracks

/-- The words and the punctuation of values have no white space. -/
theorem tracks_punctuation {s : String}
    (h : s ∈ ["null", "[]", "\x7b\x7d", "[", "]", "\x7b", "\x7d", ",", ":"]) : Tracks s s := by
  simp only [List.mem_cons, List.not_mem_nil, or_false] at h
  rcases h with rfl | rfl | rfl | rfl | rfl | rfl | rfl | rfl | rfl <;>
    exact .of_plain (by simp [Char.isWhitespace])

/-- After a colon there is a blank. -/
theorem tracks_colon : Tracks ": " ":" := by
  have hblank : Tracks " " "" := .of_blank (by simp [Char.isWhitespace])
  exact (tracks_punctuation (s := ":") (by simp)).append_blank hblank

theorem isWhitespace_eq_false_of_isNumberChar {c : Char} (h : isNumberChar c = true) :
    c.isWhitespace = false ∧ c ≠ '"' := by
  have hother : ∀ x, isNumberChar x = false → c ≠ x := by
    rintro x hx rfl
    exact absurd h (by simp [hx])
  refine ⟨?_, hother '"' (by decide)⟩
  simp only [Char.isWhitespace, Bool.or_eq_false_iff, decide_eq_false_iff_not]
  exact ⟨⟨⟨hother ' ' (by decide), hother '\t' (by decide)⟩, hother '\r' (by decide)⟩,
    hother '\n' (by decide)⟩

theorem tracks_toString (k : Int) : Tracks (toString k) (toString k) :=
  .of_plain fun _ hc => isWhitespace_eq_false_of_isNumberChar (isNumberChar_of_mem_toString hc)

theorem tracks_doubleText (x : Binary64) : Tracks (doubleText x) (doubleText x) := by
  unfold doubleText
  split
  · rw [Tracks, String.toList_ofList]
    exact .of_plain fun _ hc => isWhitespace_eq_false_of_isNumberChar (isNumberChar_of_mem_text hc)
  · exact tracks_punctuation (by simp)

theorem tracks_lineStart (level : Nat) : Tracks (lineStart level) "" := by
  refine .of_blank fun c hc => ?_
  rw [lineStart, String.toList_ofList, List.mem_cons] at hc
  rcases hc with rfl | hc
  · decide
  · rw [List.eq_of_mem_replicate hc]
    decide

mutual

/-- Whatever has been written so far, what the two writers append to it stays related. -/
theorem tracks_prettyOnto (level : Nat) (value : Json) {out out' : String} (h : Tracks out out') :
    Tracks (prettyOnto level out value) (compactOnto out' value) := by
  match value with
  | null =>
    rw [prettyOnto, compactOnto]
    exact h.append (tracks_punctuation (by simp))
  | integer k =>
    rw [prettyOnto, compactOnto]
    exact h.append (tracks_toString k)
  | double x =>
    rw [prettyOnto, compactOnto]
    exact h.append (tracks_doubleText x)
  | string u =>
    rw [prettyOnto, compactOnto]
    exact h.append (strips_stringText u)
  | array [] =>
    rw [prettyOnto, compactOnto]
    exact h.append (tracks_punctuation (by simp))
  | array (item :: items) =>
    rw [prettyOnto, compactOnto]
    have hopen := (h.append (tracks_punctuation (s := "[") (by simp))).append_blank
      (tracks_lineStart (level + 1))
    have hitems := tracks_prettyItemsOnto level items
      (tracks_prettyOnto (level + 1) item hopen)
    exact (hitems.append_blank (tracks_lineStart level)).append (tracks_punctuation (by simp))
  | object [] =>
    rw [prettyOnto, compactOnto]
    exact h.append (tracks_punctuation (by simp))
  | object ((key, value) :: fields) =>
    rw [prettyOnto, compactOnto]
    have hopen := (h.append (tracks_punctuation (s := "\x7b") (by simp))).append_blank
      (tracks_lineStart (level + 1))
    have hkey := (hopen.append (strips_stringText key)).append tracks_colon
    have hfields := tracks_prettyFieldsOnto level fields
      (tracks_prettyOnto (level + 1) value hkey)
    exact (hfields.append_blank (tracks_lineStart level)).append (tracks_punctuation (by simp))

theorem tracks_prettyItemsOnto (level : Nat) (items : List Json) {out out' : String}
    (h : Tracks out out') :
    Tracks (prettyItemsOnto level out items) (compactItemsOnto out' items) := by
  match items with
  | [] => exact h
  | item :: items =>
    rw [prettyItemsOnto, compactItemsOnto]
    have hcomma := (h.append (tracks_punctuation (s := ",") (by simp))).append_blank
      (tracks_lineStart (level + 1))
    exact tracks_prettyItemsOnto level items (tracks_prettyOnto (level + 1) item hcomma)

theorem tracks_prettyFieldsOnto (level : Nat) (fields : List (String × Json)) {out out' : String}
    (h : Tracks out out') :
    Tracks (prettyFieldsOnto level out fields) (compactFieldsOnto out' fields) := by
  match fields with
  | [] => exact h
  | (key, value) :: fields =>
    rw [prettyFieldsOnto, compactFieldsOnto]
    have hcomma := (h.append (tracks_punctuation (s := ",") (by simp))).append_blank
      (tracks_lineStart (level + 1))
    have hkey := (hcomma.append (strips_stringText key)).append tracks_colon
    exact tracks_prettyFieldsOnto level fields (tracks_prettyOnto (level + 1) value hkey)

end

/-- **Without its white space the pretty text is the compact text.** -/
theorem withoutBlanks_pretty (value : Json) : withoutBlanks value.pretty = value.compact := by
  have htracks : Tracks value.pretty value.compact :=
    tracks_prettyOnto 0 value (.of_plain (by simp))
  have hkeep := htracks []
  rw [List.append_nil] at hkeep
  rw [withoutBlanks, hkeep]
  simp [keepFrom]

end Json
end TagTemplate
