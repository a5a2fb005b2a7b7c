import TagTemplate.Proofs.Escapes.Units
import TagTemplate.Proofs.Layout.Spelling

/-!
# Free text written and read

A text is written with its backslashes and braces escaped, and what is read need not be written
so: a brace may stand for itself where no tag opens.  That is the only freedom there is.

* `FreeText.exists_settles`: a scan goes from unit to unit to the first place where the text is
  over or a backslash escapes nothing, and its result is decided by what it meets there.
* `FreeText.scan_encode`: the written form of a text, in front of a tag or at the end, is read
  back as the text.
* `FreeText.Spelling.eq_encode_iff`: what is read is the written form of what it spells, unless
  a brace in it stands for itself.
* `FreeText.scan_inverts_encode`: the two directions and the failures, together.
-/

namespace TagTemplate
namespace FreeText

/-- What follows a backslash makes no escape with it. -/
def EscapesNothing (next : List Char) : Prop := ∀ c ∈ next.head?, c ≠ '\\' ∧ c ≠ '{'

/-- The reading of a text goes no further: nothing is left, a tag opens, or a backslash escapes
nothing. -/
inductive Ends : List Char → Prop where
  | nil : Ends []
  | tag {cs : List Char} (h : tagOpen <+: cs) : Ends cs
  | backslash {next : List Char} (h : EscapesNothing next) : Ends ('\\' :: next)

/-- What is wrong with a backslash in front of `next`. -/
def escapeFault (next : List Char) : Fault := next.head?.elim .loneBackslash .malformedEscape

/-- A brace stands for itself: it is a unit of its own, with no backslash to escape it. -/
def HasBareBrace (w : List Char) : Prop := ∃ u v, w = u ++ '{' :: v ∧ Units u

variable {c : Char} {w content rest : List Char} {position : Position}

theorem not_ends_of_backslash (h : c = '\\' ∨ c = '{') : ¬ Ends ('\\' :: c :: rest) := by
  rintro (_ | ⟨htag⟩ | ⟨hnothing⟩)
  · exact absurd (tagOpen_prefix_cons_iff.mp htag).1 (by decide)
  · obtain ⟨hslash, hbrace⟩ := hnothing c rfl
    exact h.elim hslash hbrace

theorem not_ends_of_plain (hc : c ≠ '\\') (hopen : ¬ tagOpen <+: c :: rest) :
    ¬ Ends (c :: rest) := by
  rintro (_ | ⟨htag⟩ | ⟨hnothing⟩)
  · exact hopen htag
  · exact hc rfl

/-! ## What a scan comes to -/

/-- What the reading of a text gives that starts at the position and has passed `w` when it meets
what is left. -/
inductive Settles (position : Position) (w : List Char) : List Char → Reading String → Prop where
  | ended {text : String} {rest : List Char} (h : rest = [] ∨ tagOpen <+: rest) :
      Settles position w rest (.ok text, ⟨rest, position.after w⟩)
  | fault {next : List Char} {d : Cursor} (h : EscapesNothing next) :
      Settles position w ('\\' :: next)
        (.error ((escapeFault next).toError (position.after w)), d)

/-- What has been passed counts from where the reading starts. -/
theorem Settles.pass {v : List Char} {reading : Reading String}
    (h : Settles (position.after v) w rest reading) : Settles position (v ++ w) rest reading := by
  cases h with
  | ended h =>
    rw [← Position.after_append]
    exact .ended h
  | fault h =>
    rw [← Position.after_append]
    exact .fault h

theorem exists_settles_scanFrom (taken : String) (position : Position) (input : List Char) :
    ∃ w rest, FirstAt Ends input w rest ∧
      Settles position w rest (scanFrom taken position input) := by
  fun_induction scanFrom taken position input with
  | case1 taken position => exact ⟨[], [], .here .nil, .ended (.inl rfl)⟩
  | case2 taken position =>
    have hnothing : EscapesNothing [] := by simp [EscapesNothing]
    exact ⟨[], ['\\'], .here (.backslash hnothing), .fault hnothing⟩
  -- an escape and a plain character are passed, and the rest of the scan settles further on
  | case3 taken position c rest hc ih =>
    obtain ⟨w, left, hfirst, hsettles⟩ := ih
    exact ⟨_, left, hfirst.escape (not_ends_of_backslash hc), hsettles.pass (v := ['\\', c])⟩
  | case4 taken position c rest hc =>
    have hnothing : EscapesNothing (c :: rest) := by simpa [EscapesNothing] using hc
    exact ⟨[], _, .here (.backslash hnothing), .fault hnothing⟩
  | case5 taken position c rest hc hopen =>
    have htag := tagOpen_prefix_cons_iff.mpr hopen
    exact ⟨[], _, .here (.tag htag), .ended (.inr htag)⟩
  | case6 taken position c rest hc hopen ih =>
    obtain ⟨w, left, hfirst, hsettles⟩ := ih
    have hplain := not_ends_of_plain hc fun htag => hopen (tagOpen_prefix_cons_iff.mp htag)
    exact ⟨_, left, hfirst.plain hc hplain, hsettles.pass (v := [c])⟩

/-- **A scan is decided by the first place where the reading goes no further.** -/
theorem exists_settles (c : Cursor) :
    ∃ w rest, FirstAt Ends c.rest w rest ∧ Settles c.position w rest (scan c) :=
  exists_settles_scanFrom "" c.position c.rest

/-- A scan succeeds where the text is over before a backslash escapes nothing. -/
theorem firstAt_of_scan_ok {c d : Cursor} {text : String} (h : scan c = (.ok text, d)) :
    ∃ w, Cursor.Reads c w d ∧ FirstAt Ends c.rest w d.rest ∧
      (d.rest = [] ∨ tagOpen <+: d.rest) := by
  obtain ⟨w, rest, hfirst, hsettles⟩ := exists_settles c
  rw [h] at hsettles
  cases hsettles with
  | ended hended => exact ⟨w, ⟨hfirst.text_eq, rfl⟩, hfirst, hended⟩

/-- A scan fails exactly where a backslash escapes nothing before the text is over. -/
theorem scan_eq_error_iff (c : Cursor) (error : Error) :
    (∃ d, scan c = (.error error, d)) ↔
      ∃ w next, FirstAt Ends c.rest w ('\\' :: next) ∧ EscapesNothing next ∧
        error = (escapeFault next).toError (c.position.after w) := by
  obtain ⟨w, rest, hfirst, hsettles⟩ := exists_settles c
  constructor
  · rintro ⟨d, h⟩
    rw [h] at hsettles
    cases hsettles with
    | fault hnothing => exact ⟨w, _, hfirst, hnothing, rfl⟩
  · rintro ⟨u, next, hbackslash, hnothing, rfl⟩
    obtain ⟨rfl, rfl⟩ := hfirst.unique hbackslash
    generalize hscan : scan c = reading at hsettles
    cases hsettles with
    | ended hended =>
      rcases hended with hnil | htag
      · exact absurd hnil (by simp)
      · exact absurd (tagOpen_prefix_cons_iff.mp htag).1 (by decide)
    | fault _ => exact ⟨_, rfl⟩

/-! ## What is written -/

@[simp] theorem encode_nil : encode [] = [] := rfl

theorem encode_cons (c : Char) (content : List Char) :
    encode (c :: content) = escape c ++ encode content := rfl

/-- The written form of a text is read back as the text, up to what follows it. -/
theorem scan_encode (h : rest = [] ∨ tagOpen <+: rest) (content : List Char)
    (position : Position) :
    scan ⟨encode content ++ rest, position⟩ =
      (.ok (String.ofList content), ⟨rest, position.after (encode content)⟩) := by
  obtain ⟨d, hscan, hrest⟩ := scan_of_spelling (c := ⟨_, position⟩)
    (Item.spelling_encode content h)
  obtain ⟨w, hread, -⟩ := firstAt_of_scan_ok hscan
  have hcursor : d = ⟨rest, position.after (encode content)⟩ :=
    Cursor.Reads.unique hread ⟨rfl, rfl⟩ hrest
  rw [hscan, hcursor]

/-! ## Braces that stand for themselves -/

theorem not_hasBareBrace_nil : ¬ HasBareBrace [] := by
  rintro ⟨u, v, heq, -⟩
  exact absurd heq (by simp)

/-- What is escaped does not stand for itself. -/
theorem hasBareBrace_escape_iff : HasBareBrace ('\\' :: c :: w) ↔ HasBareBrace w := by
  constructor
  · rintro ⟨u, v, heq, hu⟩
    cases hu with
    | nil => exact absurd (List.cons.inj heq).1 (by decide)
    | @escape d u hu =>
      obtain ⟨-, hrest⟩ : c = d ∧ w = u ++ '{' :: v := by simpa using heq
      exact ⟨u, v, hrest, hu⟩
    | plain hd hu => exact absurd (List.cons.inj heq).1.symm hd
  · rintro ⟨u, v, rfl, hu⟩
    exact ⟨_, v, rfl, .escape hu⟩

theorem hasBareBrace_plain_iff (hc : c ≠ '\\') :
    HasBareBrace (c :: w) ↔ c = '{' ∨ HasBareBrace w := by
  constructor
  · rintro ⟨u, v, heq, hu⟩
    cases hu with
    | nil => exact .inl (List.cons.inj heq).1
    | escape hu => exact absurd (List.cons.inj heq).1 hc
    | plain hd hu => exact .inr ⟨_, v, (List.cons.inj heq).2, hu⟩
  · rintro (rfl | ⟨u, v, rfl, hu⟩)
    · exact ⟨[], w, rfl, .nil⟩
    · exact ⟨_, v, rfl, .plain hc hu⟩

namespace Spelling

/-- Every unit spells a character. -/
theorem eq_nil_iff (h : Spelling w content []) : content = [] ↔ w = [] := by
  cases h with
  | done h => simp
  | backslash h => simp
  | brace h => simp
  | plain hc hopen h => simp

/-- **What is read is the written form of what it spells, unless a brace stands for itself.** -/
theorem eq_encode_iff (h : Spelling w content []) : w = encode content ↔ ¬ HasBareBrace w := by
  generalize hrest : ([] : List Char) = rest at h
  induction h with
  | done h =>
    subst hrest
    simp [not_hasBareBrace_nil]
  | @backslash w content rest h ih =>
    rw [hasBareBrace_escape_iff, ← ih hrest, encode_cons]
    simp [escape]
  | @brace w content rest h ih =>
    rw [hasBareBrace_escape_iff, ← ih hrest, encode_cons]
    simp [escape]
  | @plain c w content rest hc hopen h ih =>
    rw [hasBareBrace_plain_iff hc, encode_cons]
    -- a brace that was read as itself is written with a backslash
    by_cases hbrace : c = '{'
    · subst hbrace
      simp [escape]
    · rw [not_or, ← ih hrest]
      simp [escape, hc, hbrace]

end Spelling

/-! ## Both directions -/

/-- **Free text is read as it is written.**  The written form of a text, in front of a tag or at
the end, is read back as the text, and nothing after it is touched.  Whatever else is read, it
is read up to the first place where a tag opens or nothing is left; what is read spells the text,
which is empty only if nothing is read; and it is the written form of the text unless a brace in
it stands for itself.  The reading fails exactly if it meets a backslash first that escapes
nothing, and the error is at this backslash. -/
theorem scan_inverts_encode :
    (∀ (text : String) (rest : List Char) (position : Position),
      rest = [] ∨ tagOpen <+: rest →
      scan ⟨encode text.toList ++ rest, position⟩ =
        (.ok text, ⟨rest, position.after (encode text.toList)⟩)) ∧
    (∀ (c d : Cursor) (text : String), scan c = (.ok text, d) →
      ∃ u, Cursor.Reads c u d ∧ FirstAt Ends c.rest u d.rest ∧
        (d.rest = [] ∨ tagOpen <+: d.rest) ∧ Spelling u text.toList [] ∧ (text = "" ↔ u = []) ∧
        (u = encode text.toList ↔ ¬ HasBareBrace u)) ∧
    ∀ (c : Cursor) (error : Error), (∃ d, scan c = (.error error, d)) ↔
      ∃ u next, FirstAt Ends c.rest u ('\\' :: next) ∧ EscapesNothing next ∧
        error = (escapeFault next).toError (c.position.after u) := by
  refine ⟨fun text rest position hrest => ?_, fun c d text h => ?_, scan_eq_error_iff⟩
  · rw [scan_encode hrest, String.ofList_toList]
  · obtain ⟨u, hread, hfirst, hended⟩ := firstAt_of_scan_ok h
    obtain ⟨w, hw, hspell⟩ := (spelling_of_scan h).exists_lexeme
    obtain rfl : u = w := List.append_cancel_right (hread.rest_eq.symm.trans hw)
    refine ⟨u, hread, hfirst, hended, hspell, ?_, hspell.eq_encode_iff⟩
    rw [← hspell.eq_nil_iff, String.toList_eq_nil_iff]

/-- A text that ends in a brace, written and read back in front of a tag; the same brace read
after an escaped backslash, where it stands for itself; and a backslash in front of a letter. -/
theorem scan_inverts_encode_of_brace :
    scan ⟨encode "a\x7b".toList ++ tagOpen, .start⟩ = (.ok "a\x7b", ⟨tagOpen, ⟨1, 4⟩⟩) ∧
      scan ⟨['\\', '\\', '{'], .start⟩ = (.ok "\\\x7b", ⟨[], ⟨1, 4⟩⟩) ∧
      ['\\', '\\', '{'] ≠ encode "\\\x7b".toList ∧
      ∃ d, scan ⟨['\\', '\\', '\\', 'n'], .start⟩ =
        (.error ((Fault.malformedEscape 'n').toError ⟨1, 3⟩), d) := by
  obtain ⟨hwritten, hread, hfails⟩ := scan_inverts_encode
  have hbrace : scan ⟨['\\', '\\', '{'], .start⟩ = (.ok "\\\x7b", ⟨[], ⟨1, 4⟩⟩) := rfl
  obtain ⟨u, hu, -, -, -, -, hiff⟩ := hread _ _ _ hbrace
  obtain rfl : _ = u := hu.rest_eq.trans (List.append_nil u)
  have hbare : HasBareBrace ['\\', '\\', '{'] := ⟨['\\', '\\'], [], rfl, .escape .nil⟩
  have hnothing : EscapesNothing ['n'] := by simp [EscapesNothing]
  have hfirst : FirstAt Ends ['\\', '\\', '\\', 'n'] ['\\', '\\'] ['\\', 'n'] :=
    .escape (not_ends_of_backslash (.inl rfl)) (.here (.backslash hnothing))
  exact ⟨hwritten "a\x7b" tagOpen .start (.inr (List.prefix_refl _)), hbrace,
    fun heq => hiff.mp heq hbare, (hfails _ _).mpr ⟨_, _, hfirst, hnothing, rfl⟩⟩

end FreeText
end TagTemplate
