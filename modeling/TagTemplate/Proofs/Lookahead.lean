import TagTemplate.Proofs.Calls
import TagTemplate.Proofs.Lookahead.Readers

/-!
# Two characters of lookahead

What the lexer returns depends on what it has read and on the two characters behind that, and
on nothing further on.  Two documents with a common beginning are therefore read alike as long
as two characters of the beginning are left: the calls return the same tokens and the same
errors, at the same positions, and leave the lexer in the same mode.

* `Lexer.looksTwoAhead_next`: one call.
* `Lexer.after_of_alike`: so many calls on two documents with a common beginning.
* `lookahead_suffices`: what this says of documents, and of one that is refused before its end,
  which is refused with the same error whatever is put behind it.
-/

namespace TagTemplate

open Cursor (Reads Alike LooksTwoAhead)

namespace Lexer

/-! ## One call -/

/-- What a call gives, with the cursor apart from what is returned and from the mode. -/
def flat (r : TokenReading) : (Except Error (Located Token) × Mode) × Cursor :=
  ((r.1, r.2.mode), r.2.cursor)

theorem looksTwoAhead_nextInText (c : Cursor) :
    LooksTwoAhead (fun c => flat (nextInText c)) c := by
  cases hopen : c.eat? TagTemplate.tagOpen with
  | some d =>
    refine LooksTwoAhead.of_eat? (a := (.ok ⟨.tagOpen, c.position⟩, .tagStart)) (by decide) hopen
      fun c' d' hfront heat => ?_
    simp only [flat, nextInText, heat, hfront.position_eq]
  | none =>
    cases hend : c.atEnd with
    | true =>
      refine (LooksTwoAhead.pure (.ok ⟨.endOfInput, c.position⟩, .text) c).congr
        fun c' hfront => ?_
      simp only [flat, nextInText, hfront.eat?_eq_none (by decide) hopen, hfront.atEnd_eq, hend,
        if_true, hfront.position_eq]
    | false =>
      refine ((FreeText.looksTwoAhead_scan c).map fun text =>
        (text.map (⟨.text ·, c.position⟩), Mode.text)).congr fun c' hfront => ?_
      simp only [flat, nextInText, hfront.eat?_eq_none (by decide) hopen, hfront.atEnd_eq, hend,
        Bool.false_eq_true, if_false, hfront.position_eq]

theorem looksTwoAhead_tagToken (c : Cursor) : LooksTwoAhead (fun c => flat (tagToken c)) c := by
  cases hclose : c.eat? TagTemplate.tagClose with
  | some d =>
    refine LooksTwoAhead.of_eat? (a := (.ok ⟨.tagClose, c.position⟩, .text)) (by decide) hclose
      fun c' d' hfront heat => ?_
    simp only [flat, tagToken, heat, hfront.position_eq]
  | none =>
    cases hpeek : c.peek? with
    | none =>
      refine (LooksTwoAhead.pure (.ok ⟨.endOfInput, c.position⟩, .tag) c).congr
        fun c' hfront => ?_
      simp only [flat, tagToken, hfront.eat?_eq_none (by decide) hclose, hfront.peek?_eq, hpeek,
        hfront.position_eq]
    | some ch =>
      obtain ⟨tail, hc⟩ := List.head?_eq_some_iff.mp hpeek
      refine ((Element.looksTwoAhead_read hc).map fun element =>
        (element.map (⟨.element ·, c.position⟩), Mode.tag)).congr fun c' hfront => ?_
      simp only [flat, tagToken, hfront.eat?_eq_none (by decide) hclose, hfront.peek?_eq, hpeek,
        hfront.position_eq]

theorem looksTwoAhead_startToken (c : Cursor) :
    LooksTwoAhead (fun c => flat (startToken c)) c := by
  cases hsign : c.eat? ['='] with
  | some d =>
    refine LooksTwoAhead.of_eat? (a := (.ok ⟨.keyword .echo, c.position⟩, .tag)) (by decide) hsign
      fun c' d' hfront heat => ?_
    simp only [flat, startToken, heat, hfront.position_eq]
  | none =>
    cases halpha : c.peek?.any Character.isAlphabetic with
    | true =>
      refine ((Element.looksTwoAhead_readWord c).map fun word =>
        (.ok ⟨firstToken word, c.position⟩, Mode.tag)).congr fun c' hfront => ?_
      simp only [flat, startToken, hfront.eat?_eq_none (by decide) hsign, hfront.peek?_eq, halpha,
        if_true, hfront.position_eq]
    | false =>
      refine (looksTwoAhead_tagToken c).congr fun c' hfront => ?_
      simp only [startToken, hfront.eat?_eq_none (by decide) hsign, hfront.peek?_eq, halpha,
        Bool.false_eq_true, if_false]

/-- **A call looks two characters ahead.** -/
theorem looksTwoAhead_next (mode : Mode) (c : Cursor) :
    LooksTwoAhead (fun c => flat (next ⟨c, mode⟩)) c := by
  cases mode with
  | text => exact looksTwoAhead_nextInText c
  | tagStart => exact (looksTwoAhead_startToken c.skipWhiteSpace).skipWhiteSpace
  | tag => exact (looksTwoAhead_tagToken c.skipWhiteSpace).skipWhiteSpace

/-! ## A run of calls -/

variable {x y : String} {k : Nat}

/-- **Documents that are alike so far are read alike so far.** -/
theorem after_of_alike {u : List Char} (hu : Reads (.ofString x) u (after x k).cursor)
    (halike : Alike u (.ofString x) (.ofString y)) :
    (∀ i < k, (after x i).next.1 = (after y i).next.1 ∧
        (after x (i + 1)).mode = (after y (i + 1)).mode) ∧
      (after x k).mode = (after y k).mode ∧ Reads (.ofString y) u (after y k).cursor := by
  induction k generalizing u with
  | zero =>
    obtain rfl := hu.eq_of_eq (.refl _)
    exact ⟨fun i hi => absurd hi (Nat.not_lt_zero i), rfl, .refl _⟩
  | succ k ih =>
    obtain ⟨u', hu'⟩ := exists_reads_from_start x k
    obtain ⟨v, hv, hcall⟩ := looksTwoAhead_next (after x k).mode (after x k).cursor
    obtain rfl := hu.eq_of_eq (hu'.trans hv)
    obtain ⟨hanswers, hmode, hy⟩ := ih hu' halike.left
    -- both lexers are now at the same place, and the same is in front of them
    have hsame : Lexer.mk (after y k).cursor (after x k).mode = after y k := by rw [hmode]
    obtain ⟨hreturned, hread⟩ := hcall _ (halike.of_reads hu' hy)
    simp only [hsame] at hreturned hread
    obtain ⟨hanswer, hnext⟩ := Prod.mk.inj hreturned
    refine ⟨fun i hi => ?_, hnext.symm, hy.trans hread⟩
    rcases Nat.lt_succ_iff_lt_or_eq.mp hi with hlt | rfl
    · exact hanswers i hlt
    · exact ⟨hanswer.symm, hnext.symm⟩

/-- How many characters of the document so many calls have read. -/
def consumed (document : String) (n : Nat) : Nat :=
  document.length - (after document n).cursor.rest.length

/-- What so many calls have read, of which there are `consumed` characters. -/
theorem exists_reads_consumed (document : String) (n : Nat) : ∃ u,
    Reads (.ofString document) u (after document n).cursor ∧ consumed document n = u.length := by
  obtain ⟨u, hu⟩ := exists_reads_from_start document n
  refine ⟨u, hu, ?_⟩
  have hlength : document.toList.length = (u ++ (after document n).cursor.rest).length :=
    congrArg List.length hu.rest_eq
  rw [List.length_append, String.length_toList] at hlength
  rw [consumed]
  omega

/-- Where two characters of a common beginning are left, what has been read is common. -/
theorem alike_of_common {common u : List Char} (hx : common <+: x.toList)
    (hy : common <+: y.toList) (hu : Reads (.ofString x) u (after x k).cursor)
    (hleft : u.length + 2 ≤ common.length) : Alike u (.ofString x) (.ofString y) := by
  obtain ⟨r, hr⟩ := hx
  obtain ⟨r', hr'⟩ := hy
  have hread : u <+: x.toList := ⟨_, hu.rest_eq.symm⟩
  have hfront : u <+: common := List.prefix_of_prefix_length_le hread ⟨r, hr⟩ (by omega)
  obtain ⟨l, rfl⟩ := hfront
  rw [List.length_append] at hleft
  refine ⟨rfl, l, r, r', by omega, ?_, ?_⟩
  · rw [← List.append_assoc, hr]
    rfl
  · rw [← List.append_assoc, hr']
    rfl

/-- **Documents with a common beginning are read alike**, as long as two characters of the
beginning are left. -/
theorem answers_of_common {common : List Char} (hx : common <+: x.toList)
    (hy : common <+: y.toList) (hleft : consumed x k + 2 ≤ common.length) :
    (∀ i < k, (after x i).next.1 = (after y i).next.1 ∧
        (after x (i + 1)).mode = (after y (i + 1)).mode) ∧ consumed y k = consumed x k := by
  obtain ⟨u, hu, hlength⟩ := exists_reads_consumed x k
  rw [hlength] at hleft
  obtain ⟨hanswers, -, hy'⟩ := after_of_alike hu (alike_of_common hx hy hu hleft)
  obtain ⟨v, hv, hlength'⟩ := exists_reads_consumed y k
  refine ⟨hanswers, ?_⟩
  rw [hlength, hlength', hv.eq_of_eq hy']

end Lexer

/-- A document that is refused two characters before its end is refused with the same error
whatever is put behind it. -/
theorem parse_append_of_unread {x : String} {limit calls : Nat} {last : Lexer} (s : String)
    (hends : Assembly.Ends limit (.ofString x) .empty calls last (parse x ⟨limit⟩))
    (hunread : 2 ≤ last.cursor.rest.length) : parse (x ++ s) ⟨limit⟩ = parse x ⟨limit⟩ := by
  have hlast : last = Lexer.after x calls := by
    rw [Assembly.Ends.last_eq_after (n := 0) hends, Nat.zero_add]
  obtain ⟨u, hu, hlength⟩ := Lexer.exists_reads_consumed x calls
  have hleft : Lexer.consumed x calls + 2 ≤ x.toList.length := by
    show _ ≤ (Cursor.ofString x).rest.length
    rw [hlength, hu.rest_eq, List.length_append, ← hlast]
    omega
  have hlonger : x.toList <+: (x ++ s).toList := by
    rw [String.toList_append]
    exact List.prefix_append _ _
  obtain ⟨hanswers, -⟩ := Lexer.answers_of_common (List.prefix_refl _) hlonger hleft
  exact (Assembly.Ends.replay (n := 0) hends fun i hi => (hanswers i (by omega)).1).run_eq

/-- **Two characters of lookahead are enough.**  Two documents with a common beginning give the
same tokens and errors and the same modes, and have the same characters read, as long as two
characters of the beginning are unread.  So a document that is refused with two characters
unread is refused with the same error whatever is put behind it. -/
theorem lookahead_suffices :
    (∀ (x y : String) (common : List Char) (k : Nat), common <+: x.toList →
      common <+: y.toList → Lexer.consumed x k + 2 ≤ common.length →
      (∀ i < k, (Lexer.after x i).next.1 = (Lexer.after y i).next.1 ∧
        (Lexer.after x (i + 1)).mode = (Lexer.after y (i + 1)).mode) ∧
        Lexer.consumed y k = Lexer.consumed x k) ∧
    (∀ (x s : String) (limit calls : Nat) (last : Lexer) (error : Error),
      parse x ⟨limit⟩ = .error error →
      Assembly.Ends limit (.ofString x) .empty calls last (parse x ⟨limit⟩) →
      2 ≤ last.cursor.rest.length → parse (x ++ s) ⟨limit⟩ = .error error) := by
  refine ⟨fun x y common k hx hy hleft => Lexer.answers_of_common hx hy hleft,
    fun x s limit calls last error herror hends hunread => ?_⟩
  rw [parse_append_of_unread s hends hunread, herror]

/-- A dollar sign that closes no tag is refused with two characters unread, also where more
is put behind it. -/
theorem lookahead_suffices_of_dollar :
    Lexer.consumed "\x7b$$a" 2 + 2 ≤ 4 ∧
      (Lexer.after "\x7b$$a" 1).next.1 = (Lexer.after "\x7b$$a$\x7d" 1).next.1 ∧
      Lexer.consumed "\x7b$$a$\x7d" 2 = Lexer.consumed "\x7b$$a" 2 ∧
      parse ("\x7b$$a" ++ "$\x7d") ⟨0⟩ = .error (Fault.strayDollar.toError ⟨1, 3⟩) := by
  obtain ⟨htokens, hparse⟩ := lookahead_suffices
  have hleft : Lexer.consumed "\x7b$$a" 2 + 2 ≤ 4 := by decide
  obtain ⟨hanswers, hconsumed⟩ := htokens "\x7b$$a" "\x7b$$a$\x7d" "\x7b$$a".toList 2
    (List.prefix_refl _) ⟨"$\x7d".toList, rfl⟩ hleft
  have hends : Assembly.Ends 0 (.ofString "\x7b$$a") .empty 2 (Lexer.after "\x7b$$a" 2)
      (.error (Fault.strayDollar.toError ⟨1, 3⟩)) := .unfinished rfl (.error rfl)
  have herror : parse "\x7b$$a" ⟨0⟩ = .error (Fault.strayDollar.toError ⟨1, 3⟩) := hends.run_eq
  rw [← herror] at hends
  exact ⟨hleft, (hanswers 1 (by decide)).1, hconsumed,
    hparse _ _ _ _ _ _ herror hends (by decide)⟩

/-- One unread character is not enough: behind a dollar sign the tag may still be closed. -/
example : (Lexer.after "\x7b$=$" 2).next.1 = .error (Fault.strayDollar.toError ⟨1, 4⟩) ∧
    (Lexer.after ("\x7b$=$" ++ "\x7d") 2).next.1 = .ok ⟨.tagClose, ⟨1, 4⟩⟩ := ⟨rfl, rfl⟩

end TagTemplate
