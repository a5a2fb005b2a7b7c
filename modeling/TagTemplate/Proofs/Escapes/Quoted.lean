import TagTemplate.Proofs.Escapes.Units
import TagTemplate.Proofs.Layout.Spelling

/-!
# String literals written and read

Four things may end the reading of a literal after its opening quote: a quote, a backslash that
escapes nothing, the two characters that close a tag, and the end of the input, which may also
stand right after a backslash.  They are looked for between units only, and whichever is met
first decides what the literal is.

* `Quoted.exists_settles`: a scan goes from unit to unit to the first of the four, and its
  result is decided by it.
* `Quoted.Spelling.escaped_eq_iff`: a literal is the written form of its string, unless a line
  feed, a carriage return or a tab in it stands for itself.
* `Quoted.firstAt_of_tagClose_infix`: where a string holds the two characters that close a tag,
  they are met first in its written form, since no escape hides them.
* `Lexer.next_literal`: what this means for the lexer.
-/

namespace TagTemplate
namespace Quoted

/-- The character makes no escape with a backslash in front of it. -/
def EscapesNothing (c : Char) : Prop := ∀ e ∈ escapes, e.1 ≠ c

/-- The literal is cut short: the tag is closed, or the input is over, possibly after a
backslash. -/
def IsCut (cs : List Char) : Prop := tagClose <+: cs ∨ cs = [] ∨ cs = ['\\']

/-- The reading of a literal goes no further. -/
inductive Ends : List Char → Prop where
  | quote {rest : List Char} : Ends ('"' :: rest)
  | backslash {c : Char} {rest : List Char} (h : EscapesNothing c) : Ends ('\\' :: c :: rest)
  | cut {cs : List Char} (h : IsCut cs) : Ends cs

/-- The characters that have an escape and may stand for themselves as well. -/
def lineControls : List Char := ['\n', '\r', '\t']

variable {c e : Char} {w rest input value : List Char} {opening position : Position}

/-- A literal is not cut short where neither the tag is closed nor a backslash is the last
character. -/
theorem not_isCut_cons (hdollar : c ≠ '$') (hlast : c = '\\' → rest ≠ []) :
    ¬ IsCut (c :: rest) := by
  rintro (htag | hnil | hslash)
  · exact hdollar (tagClose_prefix_cons_iff.mp htag).1
  · exact absurd hnil (by simp)
  · obtain ⟨hc, hrest⟩ := List.cons.inj hslash
    exact hlast hc hrest

theorem not_isCut_quote : ¬ IsCut ('"' :: rest) :=
  not_isCut_cons (by decide) fun h => absurd h (by decide)

theorem not_isCut_backslash : ¬ IsCut ('\\' :: c :: rest) :=
  not_isCut_cons (by decide) fun _ => List.cons_ne_nil _ _

theorem not_ends_of_escape (h : (e, c) ∈ escapes) : ¬ Ends ('\\' :: e :: rest) := by
  rintro (_ | ⟨hnothing⟩ | ⟨hcut⟩)
  · exact hnothing _ h rfl
  · exact not_isCut_backslash hcut

theorem not_ends_of_plain (hquote : c ≠ '"') (hslash : c ≠ '\\')
    (hclose : ¬ tagClose <+: c :: rest) : ¬ Ends (c :: rest) := by
  rintro (_ | _ | ⟨htag | hnil | hlast⟩)
  · exact hquote rfl
  · exact hslash rfl
  · exact hclose htag
  · exact absurd hnil (by simp)
  · exact hslash (List.cons.inj hlast).1

theorem unescape?_eq_none_iff : unescape? c = none ↔ EscapesNothing c := by
  constructor
  · rintro h ⟨e, x⟩ hmem rfl
    rw [unescape?_eq_some_iff.mpr hmem] at h
    exact absurd h (by simp)
  · intro h
    cases hc : unescape? c with
    | none => rfl
    | some x => exact absurd rfl (h _ (unescape?_eq_some_iff.mp hc))

/-! ## What a scan comes to -/

/-- What the reading of a literal gives that has been opened at `opening`, goes on at `position`
and has passed `w` when it meets what is left. -/
inductive Settles (opening position : Position) (w : List Char) :
    List Char → Reading String → Prop where
  | closed {value : String} {rest : List Char} :
      Settles opening position w ('"' :: rest)
        (.ok value, ⟨rest, (position.after w).advance '"'⟩)
  | misescaped {c : Char} {rest : List Char} {d : Cursor} (h : EscapesNothing c) :
      Settles opening position w ('\\' :: c :: rest)
        (.error ((Fault.invalidStringEscape c).toError (position.after w)), d)
  | cutByTag {rest : List Char} {d : Cursor} (h : tagClose <+: rest) :
      Settles opening position w rest (.error (Fault.stringCutByTag.toError opening), d)
  | cutByEnd {rest : List Char} {d : Cursor} (h : rest = [] ∨ rest = ['\\']) :
      Settles opening position w rest (.error (Fault.stringCutByEnd.toError opening), d)

namespace Settles

variable {reading : Reading String}

/-- What has been passed counts from where the reading starts. -/
theorem pass {v : List Char} (h : Settles opening (position.after v) w rest reading) :
    Settles opening position (v ++ w) rest reading := by
  cases h with
  | closed =>
    rw [← Position.after_append]
    exact .closed
  | misescaped h =>
    rw [← Position.after_append]
    exact .misescaped h
  | cutByTag h => exact .cutByTag h
  | cutByEnd h => exact .cutByEnd h

theorem of_quote (h : Settles opening position w ('"' :: rest) reading) :
    ∃ value, reading = (.ok value, ⟨rest, (position.after w).advance '"'⟩) := by
  generalize hleft : '"' :: rest = left at h
  cases h with
  | closed =>
    obtain rfl := (List.cons.inj hleft).2
    exact ⟨_, rfl⟩
  | misescaped h => exact absurd (List.cons.inj hleft).1 (by decide)
  | cutByTag h => exact absurd (.inl (hleft ▸ h)) not_isCut_quote
  | cutByEnd h => exact absurd (.inr (hleft ▸ h)) not_isCut_quote

theorem of_backslash (h : Settles opening position w ('\\' :: c :: rest) reading) :
    ∃ d, reading = (.error ((Fault.invalidStringEscape c).toError (position.after w)), d) := by
  generalize hleft : '\\' :: c :: rest = left at h
  cases h with
  | closed => exact absurd (List.cons.inj hleft).1 (by decide)
  | misescaped h =>
    obtain ⟨rfl, -⟩ := List.cons.inj (List.cons.inj hleft).2
    exact ⟨_, rfl⟩
  | cutByTag h => exact absurd (.inl (hleft ▸ h)) not_isCut_backslash
  | cutByEnd h => exact absurd (.inr (hleft ▸ h)) not_isCut_backslash

theorem of_isCut (h : Settles opening position w rest reading) (hcut : IsCut rest) :
    ∃ message d, reading = (.error (.invalid .unterminatedString opening message), d) := by
  cases h with
  | closed => exact absurd hcut not_isCut_quote
  | misescaped h => exact absurd hcut not_isCut_backslash
  | cutByTag h => exact ⟨_, _, rfl⟩
  | cutByEnd h => exact ⟨_, _, rfl⟩

end Settles

theorem exists_settles_scanFrom (opening : Position) (taken : String) (position : Position)
    (input : List Char) :
    ∃ w rest, FirstAt Ends input w rest ∧
      Settles opening position w rest (scanFrom opening taken position input) := by
  fun_induction scanFrom opening taken position input with
  | case1 taken position =>
    exact ⟨[], [], .here (.cut (.inr (.inl rfl))), .cutByEnd (.inl rfl)⟩
  | case2 taken position c rest hclose =>
    have htag := tagClose_prefix_cons_iff.mpr hclose
    exact ⟨[], _, .here (.cut (.inl htag)), .cutByTag htag⟩
  | case3 taken position rest hclose => exact ⟨[], _, .here .quote, .closed⟩
  | case4 taken position =>
    exact ⟨[], _, .here (.cut (.inr (.inr rfl))), .cutByEnd (.inr rfl)⟩
  | case5 taken position c rest value hvalue hclose hquote ih =>
    obtain ⟨w, left, hfirst, hsettles⟩ := ih
    have hescape := unescape?_eq_some_iff.mp hvalue
    exact ⟨_, left, hfirst.escape (not_ends_of_escape hescape), hsettles.pass (v := ['\\', c])⟩
  | case6 taken position c rest hnone =>
    have hnothing := unescape?_eq_none_iff.mp hnone
    exact ⟨[], _, .here (.backslash hnothing), .misescaped hnothing⟩
  | case7 taken position c rest hclose hquote hslash ih =>
    obtain ⟨w, left, hfirst, hsettles⟩ := ih
    have hplain := not_ends_of_plain hquote hslash fun htag =>
      hclose (tagClose_prefix_cons_iff.mp htag)
    exact ⟨_, left, hfirst.plain hslash hplain, hsettles.pass (v := [c])⟩

/-- **A literal is decided by what comes first after its opening quote.** -/
theorem exists_settles (input : List Char) (position : Position) :
    ∃ w rest, FirstAt Ends input w rest ∧
      Settles position (position.advance '"') w rest (scan ⟨'"' :: input, position⟩) :=
  exists_settles_scanFrom position "" (position.advance '"') input

/-! ## What is written -/

/-- The character that an escape stands for is written as this escape. -/
theorem escape_eq_of_mem_escapes (h : (e, c) ∈ escapes) : escape c = ['\\', e] := by
  have hall : ∀ x ∈ escapes, escape x.2 = ['\\', x.1] := by decide
  exact hall _ h

/-- What has an escape and is read as itself is a line feed, a carriage return or a tab. -/
theorem mem_lineControls_of_mem_escapes (h : (e, c) ∈ escapes) (hquote : c ≠ '"')
    (hslash : c ≠ '\\') : c ∈ lineControls := by
  have hall : ∀ x ∈ escapes, x.2 = '"' ∨ x.2 = '\\' ∨ x.2 ∈ lineControls := by decide
  rcases hall _ h with hc | hc | hc
  · exact absurd hc hquote
  · exact absurd hc hslash
  · exact hc

/-- **The inside of a literal is written as it stands**, unless a line feed, a carriage return
or a tab in it stands for itself. -/
theorem Spelling.escaped_eq_iff (h : Spelling w value []) :
    value.flatMap Quoted.escape ++ ['"'] = w ↔ ∀ c ∈ w, c ∉ lineControls := by
  generalize hrest : ([] : List Char) = rest at h
  induction h with
  | close =>
    subst hrest
    simp [lineControls]
  | @escape e c w value rest he h ih =>
    have hslash : '\\' ∉ lineControls := by decide
    have hplain : ∀ x ∈ escapes, x.1 ∉ lineControls := by decide
    rw [List.flatMap_cons, escape_eq_of_mem_escapes he, List.forall_mem_cons,
      List.forall_mem_cons, ← ih hrest]
    simp [hslash, hplain _ he]
  | @plain c w value rest hquote hslash hclose h ih =>
    rw [List.flatMap_cons, List.forall_mem_cons, ← ih hrest]
    rcases escape_cases c with ⟨e, he, hescape⟩ | ⟨-, -, hescape⟩
    -- a character that has an escape but was read as itself is written with a backslash
    · have hline := mem_lineControls_of_mem_escapes he hquote hslash
      simp [hescape, hslash.symm, hline]
    · have hcontrols : ∀ x ∈ lineControls, Quoted.escape x ≠ [x] := by
        simp [lineControls, Quoted.escape]
      have hline : c ∉ lineControls := fun hmem => hcontrols c hmem hescape
      simp [hescape, hline]

/-- The two characters that close a tag are met first in the written form of a string that holds
them: no escape hides them, and no escape in front of them is wrong. -/
theorem firstAt_of_tagClose_infix (h : tagClose <:+: value) (rest : List Char) :
    ∃ w left, FirstAt Ends (value.flatMap escape ++ '"' :: rest) w left ∧ IsCut left := by
  induction value with
  | nil => exact absurd h (by decide)
  | cons c value ih =>
    -- the two characters are written as they are, so they are met where they stand
    by_cases hfront : tagClose <+: c :: value
    · obtain ⟨rfl, hhead⟩ := tagClose_prefix_cons_iff.mp hfront
      obtain ⟨tail, rfl⟩ := List.head?_eq_some_iff.mp hhead
      have hcut : IsCut (('$' :: '}' :: tail).flatMap escape ++ '"' :: rest) :=
        .inl ⟨tail.flatMap escape ++ '"' :: rest, rfl⟩
      exact ⟨[], _, .here (.cut hcut), hcut⟩
    · have hmore : tagClose <:+: value := (List.infix_cons_iff.mp h).resolve_left hfront
      obtain ⟨w, left, hfirst, hcut⟩ := ih hmore
      rw [List.flatMap_cons, List.append_assoc]
      rcases escape_cases c with ⟨e, he, hescape⟩ | ⟨hquote, hslash, hescape⟩
      · rw [hescape]
        exact ⟨_, left, hfirst.escape (not_ends_of_escape he), hcut⟩
      · rw [hescape]
        refine ⟨_, left, hfirst.plain hslash (not_ends_of_plain hquote hslash fun htag => ?_), hcut⟩
        -- a dollar sign here has no brace behind it, for no escape starts with one
        obtain ⟨rfl, hhead⟩ := tagClose_prefix_cons_iff.mp htag
        exact hfront (tagClose_prefix_cons_iff.mpr ⟨rfl, head?_eq_of_head?_escaped hhead⟩)

/-! ## What a scan returns -/

/-- A string is returned, and `w` is read between the quotes, exactly where a quote comes first,
after `w`. -/
theorem scan_eq_ok_iff :
    (∃ value d, scan ⟨'"' :: input, position⟩ = (.ok value, d) ∧
        Cursor.Reads ⟨'"' :: input, position⟩ ('"' :: w ++ ['"']) d) ↔
      ∃ rest, FirstAt Ends input w ('"' :: rest) := by
  obtain ⟨u, left, hfirst, hsettles⟩ := exists_settles input position
  constructor
  · rintro ⟨value, d, hscan, hread⟩
    rw [hscan] at hsettles
    cases hsettles with
    | @closed value rest =>
      have hinput : input = w ++ '"' :: rest := by simpa using hread.rest_eq
      obtain rfl : u = w := List.append_cancel_right (hfirst.text_eq.symm.trans hinput)
      exact ⟨rest, hfirst⟩
  · rintro ⟨rest, hquote⟩
    obtain ⟨rfl, rfl⟩ := hfirst.unique hquote
    obtain ⟨value, hscan⟩ := hsettles.of_quote
    refine ⟨value, _, hscan, ?_, ?_⟩
    · rw [hfirst.text_eq]
      simp
    · simp

/-- The error is a bad escape exactly where a backslash comes first that escapes nothing, and it
is at this backslash. -/
theorem scan_eq_invalidEscape_iff {place : Position} :
    (∃ message d, scan ⟨'"' :: input, position⟩ =
        (.error (.invalid .invalidStringEscape place message), d)) ↔
      ∃ w c rest, FirstAt Ends input w ('\\' :: c :: rest) ∧ EscapesNothing c ∧
        place = position.after ('"' :: w) := by
  obtain ⟨u, left, hfirst, hsettles⟩ := exists_settles input position
  constructor
  · rintro ⟨message, d, hscan⟩
    rw [hscan] at hsettles
    cases hsettles with
    | misescaped hnothing => exact ⟨u, _, _, hfirst, hnothing, rfl⟩
  · rintro ⟨w, c, rest, hbackslash, -, rfl⟩
    obtain ⟨rfl, rfl⟩ := hfirst.unique hbackslash
    obtain ⟨d, hscan⟩ := hsettles.of_backslash
    exact ⟨_, d, hscan⟩

/-- The error is an open literal exactly where it is cut short first, and it is at the opening
quote. -/
theorem scan_eq_unterminated_iff {place : Position} :
    (∃ message d, scan ⟨'"' :: input, position⟩ =
        (.error (.invalid .unterminatedString place message), d)) ↔
      (∃ w rest, FirstAt Ends input w rest ∧ IsCut rest) ∧ place = position := by
  obtain ⟨u, left, hfirst, hsettles⟩ := exists_settles input position
  constructor
  · rintro ⟨message, d, hscan⟩
    rw [hscan] at hsettles
    cases hsettles with
    | cutByTag htag => exact ⟨⟨u, left, hfirst, .inl htag⟩, rfl⟩
    | cutByEnd hend => exact ⟨⟨u, left, hfirst, .inr hend⟩, rfl⟩
  · rintro ⟨⟨w, rest, hcut, hrest⟩, rfl⟩
    obtain ⟨rfl, rfl⟩ := hfirst.unique hcut
    exact hsettles.of_isCut hrest

end Quoted

/-! ## The lexer -/

namespace Lexer

variable {input value : List Char} {position : Position}

/-- In a tag, a quote is read by the reader of literals. -/
theorem next_of_quote (input : List Char) (position : Position) :
    next ⟨⟨'"' :: input, position⟩, .tag⟩ =
      ((Quoted.scan ⟨'"' :: input, position⟩).1.map fun value =>
          ⟨.element (.string value), position⟩,
        ⟨(Quoted.scan ⟨'"' :: input, position⟩).2, .tag⟩) := by
  rw [next_of_rest rfl (by decide) (.inl rfl), tagToken_of_rest rfl (by decide)]
  have hread : Element.read '"' ⟨'"' :: input, position⟩ =
      ((Quoted.scan ⟨'"' :: input, position⟩).1.map .string,
        (Quoted.scan ⟨'"' :: input, position⟩).2) := rfl
  rw [hread]
  cases (Quoted.scan ⟨'"' :: input, position⟩).1 <;> rfl

theorem next_eq_string_iff {text : String} {d : Cursor} :
    next ⟨⟨'"' :: input, position⟩, .tag⟩ =
        (.ok ⟨.element (.string text), position⟩, ⟨d, .tag⟩) ↔
      Quoted.scan ⟨'"' :: input, position⟩ = (.ok text, d) := by
  rw [next_of_quote]
  obtain ⟨result, e⟩ := Quoted.scan ⟨'"' :: input, position⟩
  cases result with
  | error error => simp [Except.map]
  | ok value => simp [Except.map]

theorem next_eq_error_iff {error : Error} {d : Cursor} :
    next ⟨⟨'"' :: input, position⟩, .tag⟩ = (.error error, ⟨d, .tag⟩) ↔
      Quoted.scan ⟨'"' :: input, position⟩ = (.error error, d) := by
  rw [next_of_quote]
  obtain ⟨result, e⟩ := Quoted.scan ⟨'"' :: input, position⟩
  cases result with
  | error error => simp [Except.map]
  | ok value => simp [Except.map]

/-- The written form of a string is read back as the string, up to what follows it, unless the
string holds the two characters that close a tag. -/
theorem next_encode (h : ¬ tagClose <:+: value) (rest : List Char) (position : Position) :
    next ⟨⟨Quoted.encode value ++ rest, position⟩, .tag⟩ =
      (.ok ⟨.element (.string (String.ofList value)), position⟩,
        ⟨⟨rest, position.after (Quoted.encode value)⟩, .tag⟩) := by
  have hinside := Element.Spelling.string (Quoted.spelling_escaped h rest)
  have hspell : Element.Spelling (Quoted.encode value ++ rest)
      (.string (String.ofList value)) rest := by
    simpa [Quoted.encode] using hinside
  obtain ⟨u, d, hnext, hread, hafter⟩ := next_of_spelling (c := ⟨_, position⟩) hspell
  have hcursor : d = ⟨rest, position.after (Quoted.encode value)⟩ :=
    Cursor.Reads.unique hread ⟨rfl, rfl⟩ hafter
  rw [hnext, hcursor]

/-- The written form of a string that holds the two characters that close a tag is cut short. -/
theorem next_encode_of_tagClose_infix (h : tagClose <:+: value) (rest : List Char)
    (position : Position) :
    ∃ message d, next ⟨⟨Quoted.encode value ++ rest, position⟩, .tag⟩ =
      (.error (.invalid .unterminatedString position message), ⟨d, .tag⟩) := by
  obtain ⟨message, d, hscan⟩ := Quoted.scan_eq_unterminated_iff.mpr
    ⟨Quoted.firstAt_of_tagClose_infix h rest, rfl⟩
  have hinput : Quoted.encode value ++ rest =
      '"' :: (value.flatMap Quoted.escape ++ '"' :: rest) := by
    simp [Quoted.encode]
  rw [hinput]
  exact ⟨message, d, next_eq_error_iff.mpr hscan⟩

/-- What is promised of a tag in which a quote stands at the position, with `input` behind it. -/
structure ReadsLiteral (input : List Char) (position : Position) : Prop where
  /-- Something ends the reading: a quote, a backslash that escapes nothing, or what cuts the
  literal short. -/
  first : ∃ w rest, FirstAt Quoted.Ends input w rest
  /-- A string is returned, and the literal with `w` between its quotes is consumed, exactly if
  the quote after `w` comes first. -/
  string_iff : ∀ w, (∃ text d, next ⟨⟨'"' :: input, position⟩, .tag⟩ =
        (.ok ⟨.element (.string text), position⟩, ⟨d, .tag⟩) ∧
      Cursor.Reads ⟨'"' :: input, position⟩ ('"' :: w ++ ['"']) d) ↔
    ∃ rest, FirstAt Quoted.Ends input w ('"' :: rest)
  /-- The error is a bad escape exactly if a backslash comes first that escapes nothing. -/
  invalidStringEscape_iff : ∀ place, (∃ message d, next ⟨⟨'"' :: input, position⟩, .tag⟩ =
      (.error (.invalid .invalidStringEscape place message), ⟨d, .tag⟩)) ↔
    ∃ w c rest, FirstAt Quoted.Ends input w ('\\' :: c :: rest) ∧ Quoted.EscapesNothing c ∧
      place = position.after ('"' :: w)
  /-- The error is an open literal exactly if the close of the tag or the end of the input
  comes first. -/
  unterminatedString_iff : ∀ place, (∃ message d, next ⟨⟨'"' :: input, position⟩, .tag⟩ =
      (.error (.invalid .unterminatedString place message), ⟨d, .tag⟩)) ↔
    (∃ w rest, FirstAt Quoted.Ends input w rest ∧ Quoted.IsCut rest) ∧ place = position
  /-- A string that is returned is spelled by the literal.  It does not hold the two characters
  that close a tag, its written form is read back as the string, and this is the literal that was
  read unless a line feed, a carriage return or a tab stands in that. -/
  of_string : ∀ {text : String} {after : Lexer} {literal : List Char},
    next ⟨⟨'"' :: input, position⟩, .tag⟩ =
      (.ok ⟨.element (.string text), position⟩, after) →
    Cursor.Reads ⟨'"' :: input, position⟩ literal after.cursor →
    (∃ inside, literal = '"' :: inside ∧ Quoted.Spelling inside text.toList []) ∧
      ¬ tagClose <:+: text.toList ∧
      (∀ rest place, next ⟨⟨Quoted.encode text.toList ++ rest, place⟩, .tag⟩ =
        (.ok ⟨.element (.string text), place⟩,
          ⟨⟨rest, place.after (Quoted.encode text.toList)⟩, .tag⟩)) ∧
      (Quoted.encode text.toList = literal ↔ ∀ c ∈ literal, c ∉ Quoted.lineControls)

theorem readsLiteral (input : List Char) (position : Position) :
    ReadsLiteral input position where
  first := by
    obtain ⟨w, rest, hfirst, -⟩ := Quoted.exists_settles input position
    exact ⟨w, rest, hfirst⟩
  string_iff w := by
    simp only [next_eq_string_iff]
    exact Quoted.scan_eq_ok_iff
  invalidStringEscape_iff place := by
    simp only [next_eq_error_iff]
    exact Quoted.scan_eq_invalidEscape_iff
  unterminatedString_iff place := by
    simp only [next_eq_error_iff]
    exact Quoted.scan_eq_unterminated_iff
  of_string {text after literal} h hread := by
    obtain ⟨d, rfl⟩ : ∃ d, ⟨d, .tag⟩ = after :=
      ⟨_, congrArg Prod.snd ((next_of_quote input position).symm.trans h)⟩
    have hscan := next_eq_string_iff.mp h
    have hspell := Quoted.spelling_of_scan hscan
    obtain ⟨w, hw, hinside⟩ := hspell.exists_lexeme
    have hliteral : '"' :: w ++ d.rest = literal ++ d.rest := by
      rw [← hread.rest_eq]
      exact congrArg ('"' :: ·) hw.symm
    obtain rfl := List.append_cancel_right hliteral
    have hfree := hspell.not_tagClose_infix
    refine ⟨⟨w, rfl, hinside⟩, hfree, fun rest place => ?_, ?_⟩
    · rw [next_encode hfree, String.ofList_toList]
    · have hquote : '"' ∉ Quoted.lineControls := by decide
      rw [List.forall_mem_cons, ← hinside.escaped_eq_iff]
      simp [Quoted.encode, hquote]

/-- **What comes first after the opening quote decides a literal.**  Whatever stands behind a
quote in a tag, the first place between units at which a quote, a bad escape or a cut is met says
what the lexer returns, and strings that are returned are written and read again without change.
A string that holds the two characters that close a tag has no literal: its written form is cut
short. -/
theorem next_literal :
    (∀ input position, ReadsLiteral input position) ∧
      ∀ (text : String) (rest : List Char) (position : Position), tagClose <:+: text.toList →
        ∃ message d, next ⟨⟨Quoted.encode text.toList ++ rest, position⟩, .tag⟩ =
          (.error (.invalid .unterminatedString position message), ⟨d, .tag⟩) :=
  ⟨readsLiteral, fun _ rest position h => next_encode_of_tagClose_infix h rest position⟩

/-- A literal with an escaped quote in it and a tab that stands for itself, which is written
otherwise; a string that holds the close of a tag; and the same close after a backslash, where
the bad escape comes first. -/
theorem next_literal_of_close :
    next ⟨⟨['"', '\\', '"', '\t', '"', '$'], ⟨1, 5⟩⟩, .tag⟩ =
        (.ok ⟨.element (.string "\"\t"), ⟨1, 5⟩⟩, ⟨⟨['$'], ⟨1, 10⟩⟩, .tag⟩) ∧
      Quoted.encode "\"\t".toList ≠ ['"', '\\', '"', '\t', '"'] ∧
      tagClose <:+: "a$\x7d".toList ∧
      (∃ message d, next ⟨⟨Quoted.encode "a$\x7d".toList ++ [], .start⟩, .tag⟩ =
        (.error (.invalid .unterminatedString .start message), ⟨d, .tag⟩)) ∧
      ∃ message d, next ⟨⟨['"', '\\', '$', '}'], .start⟩, .tag⟩ =
        (.error (.invalid .invalidStringEscape ⟨1, 2⟩ message), ⟨d, .tag⟩) := by
  obtain ⟨hreads, hcut⟩ := next_literal
  have hnext : next ⟨⟨['"', '\\', '"', '\t', '"', '$'], ⟨1, 5⟩⟩, .tag⟩ =
      (.ok ⟨.element (.string "\"\t"), ⟨1, 5⟩⟩, ⟨⟨['$'], ⟨1, 10⟩⟩, .tag⟩) := rfl
  have hread : Cursor.Reads ⟨['"', '\\', '"', '\t', '"', '$'], ⟨1, 5⟩⟩
      ['"', '\\', '"', '\t', '"'] ⟨['$'], ⟨1, 10⟩⟩ := ⟨rfl, rfl⟩
  obtain ⟨-, -, -, hwritten⟩ := (hreads _ _).of_string hnext hread
  have hclose : tagClose <:+: "a$\x7d".toList := ⟨['a'], [], rfl⟩
  have hnothing : Quoted.EscapesNothing '$' := by
    unfold Quoted.EscapesNothing
    decide
  have hfirst : FirstAt Quoted.Ends ['\\', '$', '}'] [] ['\\', '$', '}'] :=
    .here (.backslash hnothing)
  refine ⟨hnext, fun heq => ?_, hclose, hcut _ _ _ hclose, ?_⟩
  · exact hwritten.mp heq '\t' (by simp) (by decide)
  · exact ((hreads _ _).invalidStringEscape_iff _).mpr ⟨[], '$', ['}'], hfirst, hnothing, rfl⟩

end Lexer
end TagTemplate
