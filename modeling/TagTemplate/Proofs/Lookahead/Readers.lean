import TagTemplate.FreeText
import TagTemplate.Element.Reader
import TagTemplate.Proofs.Reading.Leaves

/-!
# Readers that look two characters ahead

A reader decides by what it reads and by the next two characters at most: the delimiters have
two characters, a sign asks for the character after it, and words and numbers are over because
of one more.  `Cursor.LooksTwoAhead f c` says so of the reader `f` at the cursor `c`: where the
same position and the same characters are met, up to two behind those that are read, the
reader returns the same and reads the same.

## Two cursors

* `Cursor.SameFront`: the same position and the same next two characters.  All that a reader
  asks before it reads on is answered alike: `SameFront.peek?_eq`, `SameFront.eat?_eq_none`.
* `Cursor.Alike`: the same position and the same characters so far, and two more.

## Readers

The property is put together as readers are: it holds where nothing is read (`pure`), where a
pattern of two characters is eaten (`of_eat?`) and for a run of a class (`takeWhile`), and one
reader after another has it if both do (`bind`).  A distinction of cases by the front is no
further case (`congr`).  From there it goes up to `Element.looksTwoAhead_read`.
-/

namespace TagTemplate
namespace Cursor

variable {α β : Type} {c c' d d' : Cursor} {u v : List Char} {pattern : List Char}

/-! ## Two cursors -/

/-- Two cursors are at the same position, and the next two characters are the same. -/
structure SameFront (c c' : Cursor) : Prop where
  position_eq : c'.position = c.position
  take_eq : c'.rest.take 2 = c.rest.take 2

namespace SameFront

theorem refl (c : Cursor) : SameFront c c := ⟨rfl, rfl⟩

theorem peek?_eq (h : SameFront c c') : c'.peek? = c.peek? := by
  have hhead := congrArg (·[0]?) h.take_eq
  simpa [peek?, List.head?_eq_getElem?, List.getElem?_take] using hhead

theorem peekSecond?_eq (h : SameFront c c') : c'.peekSecond? = c.peekSecond? := by
  have hsecond := congrArg (·[1]?) h.take_eq
  simpa [peekSecond?, List.head?_eq_getElem?, List.getElem?_take] using hsecond

theorem rest_eq_nil_iff (h : SameFront c c') : c'.rest = [] ↔ c.rest = [] := by
  have hhead := h.peek?_eq
  rw [peek?, peek?] at hhead
  rw [← List.head?_eq_none_iff, hhead, List.head?_eq_none_iff]

theorem atEnd_eq (h : SameFront c c') : c'.atEnd = c.atEnd := by
  rw [atEnd, atEnd, Bool.eq_iff_iff, List.isEmpty_iff, List.isEmpty_iff, h.rest_eq_nil_iff]

/-- A pattern of two characters at most is eaten at both cursors, or at none. -/
theorem startsWith_eq (h : SameFront c c') (hlength : pattern.length ≤ 2) :
    c'.startsWith pattern = c.startsWith pattern := by
  have htake : ∀ cs : List Char, pattern <+: cs ↔ pattern <+: cs.take 2 := by
    intro cs
    rw [List.prefix_take_iff]
    exact ⟨fun hp => ⟨hp, hlength⟩, And.left⟩
  rw [startsWith, startsWith, Bool.eq_iff_iff, List.isPrefixOf_iff_prefix,
    List.isPrefixOf_iff_prefix, htake c'.rest, htake c.rest, h.take_eq]

theorem eat?_eq_none (h : SameFront c c') (hlength : pattern.length ≤ 2)
    (hc : c.eat? pattern = none) : c'.eat? pattern = none := by
  simpa [eat?, h.startsWith_eq hlength] using hc

theorem exists_eat?_eq (h : SameFront c c') (hlength : pattern.length ≤ 2)
    (hc : c.eat? pattern = some d) : ∃ d', c'.eat? pattern = some d' := by
  have hfront := (Option.isSome_iff_exists.mpr ⟨d, hc⟩)
  rw [← Option.isSome_iff_exists]
  simpa [eat?, h.startsWith_eq hlength] using hfront

/-- What has a next character has it at both cursors, with the same one behind it. -/
theorem exists_cons {ch : Char} {rest : List Char} {p : Position}
    (h : SameFront ⟨ch :: rest, p⟩ c') : ∃ rest', c' = ⟨ch :: rest', p⟩ ∧
      rest'.head? = rest.head? := by
  obtain ⟨cs, q⟩ := c'
  obtain rfl : q = p := h.position_eq
  obtain ⟨rest', rfl⟩ := List.head?_eq_some_iff.mp h.peek?_eq
  exact ⟨rest', rfl, h.peekSecond?_eq⟩

end SameFront

/-- Two cursors are at the same position, and have the characters `u` in front of them and
then at least two more in common. -/
structure Alike (u : List Char) (c c' : Cursor) : Prop where
  position_eq : c'.position = c.position
  exists_rest : ∃ l r r', 2 ≤ l.length ∧ c.rest = u ++ (l ++ r) ∧ c'.rest = u ++ (l ++ r')

namespace Alike

theorem sameFront (h : Alike u c c') : SameFront c c' := by
  obtain ⟨l, r, r', hl, hc, hc'⟩ := h.exists_rest
  have hlength : 2 ≤ (u ++ l).length := by
    rw [List.length_append]
    omega
  refine ⟨h.position_eq, ?_⟩
  rw [hc, hc', ← List.append_assoc u l r, ← List.append_assoc u l r',
    List.take_append_of_le_length hlength, List.take_append_of_le_length hlength]

theorem left (h : Alike (u ++ v) c c') : Alike u c c' := by
  obtain ⟨l, r, r', hl, hc, hc'⟩ := h.exists_rest
  exact ⟨h.position_eq, v ++ l, r, r', by simp; omega, by simp [hc], by simp [hc']⟩

/-- Cursors that are alike still are after they have read the same. -/
theorem of_reads (h : Alike (u ++ v) c c') (hd : Reads c u d) (hd' : Reads c' u d') :
    Alike v d d' := by
  obtain ⟨l, r, r', hl, hc, hc'⟩ := h.exists_rest
  rw [hd.rest_eq, List.append_assoc, List.append_cancel_left_eq] at hc
  rw [hd'.rest_eq, List.append_assoc, List.append_cancel_left_eq] at hc'
  refine ⟨?_, l, r, r', hl, hc, hc'⟩
  rw [hd.position_eq, hd'.position_eq, h.position_eq]

end Alike

/-! ## Readers -/

/-- What the reader returns and how much it reads depends on what it reads and on the two
characters behind that. -/
def LooksTwoAhead (f : Cursor → α × Cursor) (c : Cursor) : Prop :=
  ∃ u, Reads c u (f c).2 ∧ ∀ c', Alike u c c' → (f c').1 = (f c).1 ∧ Reads c' u (f c').2

namespace LooksTwoAhead

variable {f F : Cursor → α × Cursor} {g : α → Cursor → β × Cursor}

/-- A reader may first look at the front, and do what depends on it. -/
theorem congr (h : LooksTwoAhead f c) (heq : ∀ c', SameFront c c' → F c' = f c') :
    LooksTwoAhead F c := by
  obtain ⟨u, hu, hall⟩ := h
  refine ⟨u, by rwa [heq c (.refl c)], fun c' halike => ?_⟩
  rw [heq c (.refl c), heq c' halike.sameFront]
  exact hall c' halike

theorem pure (a : α) (c : Cursor) : LooksTwoAhead (fun c => (a, c)) c :=
  ⟨[], .refl c, fun c' _ => ⟨rfl, .refl c'⟩⟩

/-- One reader after another. -/
theorem bind (hf : LooksTwoAhead f c) (hg : LooksTwoAhead (g (f c).1) (f c).2) :
    LooksTwoAhead (fun c => g (f c).1 (f c).2) c := by
  obtain ⟨u, hu, hall⟩ := hf
  obtain ⟨v, hv, hmore⟩ := hg
  refine ⟨u ++ v, hu.trans hv, fun c' halike => ?_⟩
  obtain ⟨hfirst, hu'⟩ := hall c' halike.left
  obtain ⟨hsecond, hv'⟩ := hmore (f c').2 (halike.of_reads hu hu')
  rw [← hfirst] at hsecond hv'
  exact ⟨hsecond.trans (by rw [hfirst]), hu'.trans hv'⟩

/-- What is read may be judged by the character behind it. -/
theorem peek (hf : LooksTwoAhead f c) (k : α → Option Char → β) :
    LooksTwoAhead (fun c => (k (f c).1 (f c).2.peek?, (f c).2)) c :=
  hf.bind (g := fun a d => (k a d.peek?, d)) <|
    (pure (k (f c).1 (f c).2.peek?) (f c).2).congr fun _ hfront => by rw [hfront.peek?_eq]

theorem map (hf : LooksTwoAhead f c) (k : α → β) :
    LooksTwoAhead (fun c => (k (f c).1, (f c).2)) c :=
  hf.bind (g := fun a d => (k a, d)) (pure (k (f c).1) (f c).2)

/-- A pattern of two characters at most is eaten. -/
theorem of_eat? {a : α} (hlength : pattern.length ≤ 2) (hc : c.eat? pattern = some d)
    (hF : ∀ c' d', SameFront c c' → c'.eat? pattern = some d' → F c' = (a, d')) :
    LooksTwoAhead F c := by
  refine ⟨pattern, ?_, fun c' halike => ?_⟩
  · rw [hF c d (.refl c) hc]
    exact reads_of_eat? hc
  · obtain ⟨d', hd'⟩ := halike.sameFront.exists_eat?_eq hlength hc
    rw [hF c d (.refl c) hc, hF c' d' halike.sameFront hd']
    exact ⟨rfl, reads_of_eat? hd'⟩

/-- The next character is read, and then more. -/
theorem step {ch : Char} {rest : List Char} {p : Position}
    (h : LooksTwoAhead f ⟨rest, p.advance ch⟩) :
    LooksTwoAhead (fun c => f c.step) ⟨ch :: rest, p⟩ := by
  obtain ⟨u, hu, hall⟩ := h
  refine ⟨ch :: u, hu.cons, fun c' halike => ?_⟩
  obtain ⟨rest', rfl, -⟩ := halike.sameFront.exists_cons
  have hread : ∀ cs, Reads ⟨ch :: cs, p⟩ [ch] ⟨cs, p.advance ch⟩ := fun _ => ⟨rfl, rfl⟩
  have hmore := halike.of_reads (u := [ch]) (v := u) (hread rest) (hread rest')
  obtain ⟨hresult, hreads⟩ := hall _ hmore
  exact ⟨hresult, hreads.cons⟩

end LooksTwoAhead

/-- Where the characters are alike, the run of a class is the same. -/
theorem takeWhile_eq_of_alike {p : Char → Bool} (h : Alike (c.rest.takeWhile p) c c') :
    c'.rest.takeWhile p = c.rest.takeWhile p := by
  obtain ⟨l, r, r', hl, hc, hc'⟩ := h.exists_rest
  obtain ⟨x, l, rfl⟩ := List.exists_cons_of_ne_nil (l := l) (by rintro rfl; simp at hl)
  have hdrop : c.rest.dropWhile p = x :: (l ++ r) := by
    have hsplit : c.rest.takeWhile p ++ c.rest.dropWhile p =
        c.rest.takeWhile p ++ (x :: (l ++ r)) := by
      rw [List.takeWhile_append_dropWhile]
      exact hc
    exact List.append_cancel_left hsplit
  have hstops : Stops p (x :: (l ++ r')) := by
    have hx := stops_dropWhile p c.rest
    rw [hdrop, stops_cons] at hx
    exact stops_cons.mpr hx
  rw [hc']
  exact (takeWhile_append_of_stops (fun _ hx => List.mem_takeWhile_imp hx) hstops).1

theorem looksTwoAhead_takeWhile (p : Char → Bool) (c : Cursor) :
    LooksTwoAhead (fun c => c.takeWhile p) c := by
  have hread : ∀ c : Cursor, Reads c (c.rest.takeWhile p) (c.takeWhile p).2 := fun c => by
    rw [← takeWhile_fst_toList]
    exact reads_takeWhile p c
  refine ⟨_, hread c, fun c' halike => ?_⟩
  have heq := takeWhile_eq_of_alike halike
  refine ⟨?_, heq ▸ hread c'⟩
  rw [← String.toList_inj, takeWhile_fst_toList, takeWhile_fst_toList, heq]

/-- A reader that passes over white space first. -/
theorem LooksTwoAhead.skipWhiteSpace {f : Cursor → α × Cursor}
    (h : LooksTwoAhead f c.skipWhiteSpace) : LooksTwoAhead (fun c => f c.skipWhiteSpace) c := by
  have hskip : LooksTwoAhead (fun c => ((), c.skipWhiteSpace)) c := by
    refine ⟨_, reads_skipWhiteSpace c, fun c' halike => ⟨rfl, ?_⟩⟩
    rw [← takeWhile_eq_of_alike halike]
    exact reads_skipWhiteSpace c'
  exact hskip.bind (g := fun _ => f) h

end Cursor

open Cursor (LooksTwoAhead SameFront)

/-! ## Texts and strings -/

namespace FreeText

/-- Which step the scan takes is seen from the next two characters. -/
theorem looksTwoAhead_scanFrom (taken : String) (p : Position) (cs : List Char) :
    LooksTwoAhead (fun c => scanFrom taken c.position c.rest) ⟨cs, p⟩ := by
  -- in each case the scan of any text with the same front is in the same case
  fun_induction scanFrom taken p cs with
  | case1 taken p =>
    refine (LooksTwoAhead.pure (.ok taken) _).congr fun c' hfront => ?_
    obtain ⟨cs', p'⟩ := c'
    obtain rfl : cs' = [] := hfront.rest_eq_nil_iff.mpr rfl
    rw [scanFrom]
  | case2 taken p =>
    refine (LooksTwoAhead.pure (.error (Fault.loneBackslash.toError p)) _).step.congr
      fun c' hfront => ?_
    obtain ⟨rest', rfl, hnext⟩ := hfront.exists_cons
    obtain rfl := List.head?_eq_none_iff.mp hnext
    rw [scanFrom, if_pos rfl]
    rfl
  | case3 taken p d rest hd ih =>
    refine ih.step.step.congr fun c' hfront => ?_
    obtain ⟨_, rfl, hnext⟩ := hfront.exists_cons
    obtain ⟨rest', rfl⟩ := List.head?_eq_some_iff.mp hnext
    rw [scanFrom, if_pos rfl]
    simp only [if_pos hd]
    rfl
  | case4 taken p d rest hd =>
    refine (LooksTwoAhead.pure (.error ((Fault.malformedEscape d).toError p)) _).step.step.congr
      fun c' hfront => ?_
    obtain ⟨_, rfl, hnext⟩ := hfront.exists_cons
    obtain ⟨rest', rfl⟩ := List.head?_eq_some_iff.mp hnext
    rw [scanFrom, if_pos rfl]
    simp only [if_neg hd]
    rfl
  | case5 taken p c rest hslash hopen =>
    refine (LooksTwoAhead.pure (.ok taken) _).congr fun c' hfront => ?_
    obtain ⟨rest', rfl, hnext⟩ := hfront.exists_cons
    rw [← hnext] at hopen
    rw [scanFrom.eq_def]
    simp only [if_neg hslash, if_pos hopen]
  | case6 taken p c rest hslash hopen ih =>
    refine ih.step.congr fun c' hfront => ?_
    obtain ⟨rest', rfl, hnext⟩ := hfront.exists_cons
    rw [← hnext] at hopen
    rw [scanFrom.eq_def]
    simp only [if_neg hslash, if_neg hopen]
    rfl

theorem looksTwoAhead_scan (c : Cursor) : LooksTwoAhead scan c :=
  looksTwoAhead_scanFrom "" c.position c.rest

end FreeText

namespace Quoted

theorem looksTwoAhead_scanFrom (opening : Position) (taken : String) (p : Position)
    (cs : List Char) :
    LooksTwoAhead (fun c => scanFrom opening taken c.position c.rest) ⟨cs, p⟩ := by
  fun_induction scanFrom opening taken p cs with
  | case1 taken p =>
    refine (LooksTwoAhead.pure (.error (Fault.stringCutByEnd.toError opening)) _).congr
      fun c' hfront => ?_
    obtain ⟨cs', p'⟩ := c'
    obtain rfl : cs' = [] := hfront.rest_eq_nil_iff.mpr rfl
    rw [scanFrom]
  | case2 taken p c rest hclose =>
    refine (LooksTwoAhead.pure (.error (Fault.stringCutByTag.toError opening)) _).congr
      fun c' hfront => ?_
    obtain ⟨rest', rfl, hnext⟩ := hfront.exists_cons
    rw [← hnext] at hclose
    rw [scanFrom.eq_def]
    simp only [if_pos hclose]
  | case3 taken p rest hclose =>
    refine (LooksTwoAhead.pure (.ok taken) _).step.congr fun c' hfront => ?_
    obtain ⟨rest', rfl, hnext⟩ := hfront.exists_cons
    rw [← hnext] at hclose
    rw [scanFrom.eq_def]
    simp only [if_neg hclose, if_true]
    rfl
  | case4 taken p hquote hclose =>
    refine (LooksTwoAhead.pure (.error (Fault.stringCutByEnd.toError opening)) _).step.congr
      fun c' hfront => ?_
    obtain ⟨rest', rfl, hnext⟩ := hfront.exists_cons
    obtain rfl := List.head?_eq_none_iff.mp hnext
    rw [scanFrom.eq_def]
    simp only [if_neg hclose, if_neg hquote, if_true]
    rfl
  | case5 taken p d rest value hvalue hquote hclose ih =>
    refine ih.step.step.congr fun c' hfront => ?_
    obtain ⟨_, rfl, hnext⟩ := hfront.exists_cons
    rw [← hnext] at hclose
    obtain ⟨rest', rfl⟩ := List.head?_eq_some_iff.mp hnext
    rw [scanFrom.eq_def]
    simp only [if_neg hclose, if_neg hquote, if_true, hvalue]
    rfl
  | case6 taken p d rest hvalue hquote hclose =>
    refine (LooksTwoAhead.pure (.error ((Fault.invalidStringEscape d).toError p)) _).step.step.congr
      fun c' hfront => ?_
    obtain ⟨_, rfl, hnext⟩ := hfront.exists_cons
    rw [← hnext] at hclose
    obtain ⟨rest', rfl⟩ := List.head?_eq_some_iff.mp hnext
    rw [scanFrom.eq_def]
    simp only [if_neg hclose, if_neg hquote, if_true, hvalue]
    rfl
  | case7 taken p c rest hclose hquote hslash ih =>
    refine ih.step.congr fun c' hfront => ?_
    obtain ⟨rest', rfl, hnext⟩ := hfront.exists_cons
    rw [← hnext] at hclose
    rw [scanFrom.eq_def]
    simp only [if_neg hclose, if_neg hquote, if_neg hslash]
    rfl

/-- A literal is read from its opening quote, which is the next character. -/
theorem looksTwoAhead_scan {c : Cursor} {ch : Char} {tail : List Char} (hc : c.rest = ch :: tail) :
    LooksTwoAhead scan c := by
  obtain ⟨cs, p⟩ := c
  obtain rfl : cs = ch :: tail := hc
  refine (looksTwoAhead_scanFrom p "" (p.advance ch) tail).step.congr fun c' hfront => ?_
  rw [scan, hfront.position_eq]

end Quoted

/-! ## Numbers -/

namespace Numeral

theorem looksTwoAhead_readSign (c : Cursor) : LooksTwoAhead readSign c := by
  cases hsign : c.eat? ['-'] with
  | some d =>
    refine LooksTwoAhead.of_eat? (a := true) (by decide) hsign fun c' d' _ heat => ?_
    simp only [readSign, heat]
  | none =>
    refine (LooksTwoAhead.pure false c).congr fun c' hfront => ?_
    simp only [readSign, hfront.eat?_eq_none (by decide) hsign]

theorem looksTwoAhead_readFraction (c : Cursor) : LooksTwoAhead readFraction c := by
  cases hpoint : c.eat? ['.'] with
  | some d =>
    have heat : LooksTwoAhead (fun c => ((), (c.eat? ['.']).getD c)) c :=
      .of_eat? (by decide) hpoint fun c' d' _ heat => by rw [heat, Option.getD_some]
    refine (heat.bind (g := fun _ d => (some (d.takeWhile Char.isDigit).1,
      (d.takeWhile Char.isDigit).2)) ((Cursor.looksTwoAhead_takeWhile _ _).map some)).congr
        fun c' hfront => ?_
    obtain ⟨d', hd'⟩ := hfront.exists_eat?_eq (by decide) hpoint
    simp only [readFraction, hd', Option.getD_some]
  | none =>
    refine (LooksTwoAhead.pure none c).congr fun c' hfront => ?_
    simp only [readFraction, hfront.eat?_eq_none (by decide) hpoint]

theorem looksTwoAhead_readParts (c : Cursor) : LooksTwoAhead readParts c := by
  have hwhole : ∀ sign d, LooksTwoAhead (fun d =>
      let whole := d.takeWhile Char.isDigit
      (Numeral.mk sign whole.1 (readFraction whole.2).1, (readFraction whole.2).2)) d :=
    fun sign d => (Cursor.looksTwoAhead_takeWhile Char.isDigit d).bind
      (g := fun whole d => (Numeral.mk sign whole (readFraction d).1, (readFraction d).2))
      ((looksTwoAhead_readFraction _).map (Numeral.mk sign _))
  exact (looksTwoAhead_readSign c).bind
    (g := fun sign d =>
      let whole := d.takeWhile Char.isDigit
      (Numeral.mk sign whole.1 (readFraction whole.2).1, (readFraction whole.2).2))
    (hwhole _ _)

theorem looksTwoAhead_read (c : Cursor) : LooksTwoAhead read c := by
  refine ((looksTwoAhead_readParts c).peek fun n next =>
    Except.mapError (·.toError c.position) (n.resolve next)).congr fun c' hfront => ?_
  rw [read, hfront.position_eq]

end Numeral

/-! ## Elements -/

namespace Element

theorem looksTwoAhead_readWord (c : Cursor) : LooksTwoAhead readWord c :=
  Cursor.looksTwoAhead_takeWhile _ c

theorem looksTwoAhead_readVariable (c : Cursor) : LooksTwoAhead readVariable c := by
  refine ((looksTwoAhead_readWord c).map fun word =>
    if isIdentifier word.toList then .ok (.var word)
    else .error ((Fault.variableName word).toError c.position)).congr fun c' hfront => ?_
  rw [readVariable, hfront.position_eq]

theorem looksTwoAhead_readFunction {c : Cursor} {ch : Char} {tail : List Char}
    (hc : c.rest = ch :: tail) : LooksTwoAhead readFunction c := by
  obtain ⟨cs, p⟩ := c
  obtain rfl : cs = ch :: tail := hc
  refine ((looksTwoAhead_readWord _).peek fun word next =>
    if isIdentifier word.toList then .ok (.function ("@" ++ word))
    else .error ((Fault.functionName (wordFound word next)).toError p)).step.congr
      fun c' hfront => ?_
  rw [readFunction, hfront.position_eq]

theorem looksTwoAhead_readString {c : Cursor} {ch : Char} {tail : List Char}
    (hc : c.rest = ch :: tail) : LooksTwoAhead readString c :=
  (Quoted.looksTwoAhead_scan hc).map _

/-- **An element is read by its own characters and two more.** -/
theorem looksTwoAhead_read {c : Cursor} {ch : Char} {tail : List Char}
    (hc : c.rest = ch :: tail) : LooksTwoAhead (read ch) c := by
  by_cases hquote : ch = '"'
  · exact (looksTwoAhead_readString hc).congr fun c' _ => by rw [read, if_pos hquote]
  by_cases hat : ch = '@'
  · exact (looksTwoAhead_readFunction hc).congr fun c' _ => by
      rw [read, if_neg hquote, if_pos hat]
  by_cases hletter : (Character.isAlphabetic ch || ch == '_') = true
  · exact (looksTwoAhead_readVariable c).congr fun c' _ => by
      rw [read, if_neg hquote, if_neg hat, if_pos hletter]
  by_cases hstart : startsNumeral ch c.peekSecond? = true
  · exact (Numeral.looksTwoAhead_read c).congr fun c' hfront => by
      rw [read, if_neg hquote, if_neg hat, if_neg hletter, hfront.peekSecond?_eq, if_pos hstart]
  by_cases hoperator : ch ∈ operatorSymbols
  · obtain ⟨cs, p⟩ := c
    obtain rfl : cs = ch :: tail := hc
    exact (LooksTwoAhead.pure (.ok (.operator ch)) _).step.congr fun c' hfront => by
      rw [read, if_neg hquote, if_neg hat, if_neg hletter, hfront.peekSecond?_eq, if_neg hstart,
        if_pos hoperator]
  by_cases hdollar : ch = '$'
  · exact (LooksTwoAhead.pure (.error (Fault.strayDollar.toError c.position)) c).congr
      fun c' hfront => by
        rw [read, if_neg hquote, if_neg hat, if_neg hletter, hfront.peekSecond?_eq,
          if_neg hstart, if_neg hoperator, if_pos hdollar, hfront.position_eq]
  · exact (LooksTwoAhead.pure (.error ((Fault.strayCharacter ch).toError c.position)) c).congr
      fun c' hfront => by
        rw [read, if_neg hquote, if_neg hat, if_neg hletter, hfront.peekSecond?_eq,
          if_neg hstart, if_neg hoperator, if_neg hdollar, hfront.position_eq]

end Element
end TagTemplate
