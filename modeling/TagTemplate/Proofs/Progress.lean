import TagTemplate.Proofs.Calls
import TagTemplate.Proofs.Errors.Position

/-!
# Progress

The only loop without a counter is the one that calls for tokens, and it ends because a token
costs characters.  A call passes over white space, in a tag only, and then reads a stretch of
the document, which is empty for an error or the end alone (`Lexer.exists_reads_start`).  So
the stretches of the tokens of a document lie one behind the other.

`Lexer.ReadFrom` says which stretch of the document a token is read from, by the position of
the token and by what is left after it, without following the calls before.  It determines the
stretch (`Lexer.ReadFrom.reads`), and everything else is put together from there:
`Lexer.MakesProgress` for the calls of a document, `reading_makesProgress` for a whole reading.
-/

namespace TagTemplate

open Cursor (Reads)

namespace Position

/-- The position is on an earlier line, or further to the left on the same line. -/
def Precedes (p q : Position) : Prop :=
  p.line < q.line ∨ (p.line = q.line ∧ p.column < q.column)

/-- Reading something leads to a later position. -/
theorem precedes_after (p : Position) {cs : List Char} (h : cs ≠ []) : p.Precedes (p.after cs) := by
  have hlength := List.length_pos_iff.mpr h
  rcases line_lt_or_column_eq p cs with hline | ⟨hline, hcolumn⟩
  · exact .inl hline
  · exact .inr ⟨hline, by omega⟩

end Position

namespace Lexer

/-! ## One call -/

/-- Where the next token starts: behind the white space, if a tag is open. -/
def start (lexer : Lexer) : Cursor :=
  match lexer.mode with
  | .text => lexer.cursor
  | .tagStart => lexer.cursor.skipWhiteSpace
  | .tag => lexer.cursor.skipWhiteSpace

variable {lexer : Lexer} {c : Cursor} {token : Located Token}

/-- What is passed over is white space, and there is none outside of tags. -/
theorem exists_blanks_start (lexer : Lexer) : ∃ blanks, Reads lexer.cursor blanks lexer.start ∧
    (∀ ch ∈ blanks, Character.isWhiteSpace ch = true) ∧ (lexer.mode = .text → blanks = []) := by
  have hskip := Cursor.reads_skipWhiteSpace lexer.cursor
  unfold start
  cases lexer.mode with
  | text => exact ⟨[], .refl _, by simp, fun _ => rfl⟩
  | tagStart => exact ⟨_, hskip, fun _ h => List.mem_takeWhile_imp h, by simp⟩
  | tag => exact ⟨_, hskip, fun _ h => List.mem_takeWhile_imp h, by simp⟩

theorem position_of_map_ok {α : Type} {f : α → Token} {r : Except Error α}
    (h : r.map (⟨f ·, c.position⟩) = .ok token) : token.position = c.position := by
  obtain ⟨_, -, rfl⟩ := map_eq_ok_iff.mp h
  rfl

theorem position_of_nextInText (h : (nextInText c).1 = .ok token) :
    token.position = c.position := by
  unfold nextInText at h
  split at h
  · exact congrArg Located.position (Except.ok.inj h).symm
  · split at h
    · exact congrArg Located.position (Except.ok.inj h).symm
    · exact position_of_map_ok h

theorem position_of_tagToken (h : (tagToken c).1 = .ok token) : token.position = c.position := by
  unfold tagToken at h
  split at h
  · exact congrArg Located.position (Except.ok.inj h).symm
  · split at h
    · exact congrArg Located.position (Except.ok.inj h).symm
    · exact position_of_map_ok h

theorem position_of_startToken (h : (startToken c).1 = .ok token) :
    token.position = c.position := by
  unfold startToken at h
  split at h
  · exact congrArg Located.position (Except.ok.inj h).symm
  · split at h
    · exact congrArg Located.position (Except.ok.inj h).symm
    · exact position_of_tagToken h

/-- **A call reads a stretch from where its token starts**, and an empty one only for an error
or for the end of the document. -/
theorem exists_reads_start (lexer : Lexer) : ∃ lexeme,
    Reads lexer.start lexeme lexer.next.2.cursor ∧
      ∀ token, lexer.next.1 = .ok token → token.position = lexer.start.position ∧
        (token.value ≠ .endOfInput → lexeme ≠ []) := by
  have hcall : Advances lexer.start lexer.next ∧ ∀ token, lexer.next.1 = .ok token →
      token.position = lexer.start.position := by
    obtain ⟨c, mode⟩ := lexer
    cases mode with
    | text => exact ⟨nextInText_advances c, fun _ => position_of_nextInText⟩
    | tagStart => exact ⟨startToken_advances c.skipWhiteSpace, fun _ => position_of_startToken⟩
    | tag => exact ⟨tagToken_advances c.skipWhiteSpace, fun _ => position_of_tagToken⟩
  obtain ⟨⟨lexeme, hreads, hnil⟩, hposition⟩ := hcall
  exact ⟨lexeme, hreads, fun token h =>
    ⟨hposition token h, fun hend hlexeme => hend (hnil hlexeme token h)⟩⟩

/-- The end of the document is returned where nothing is left to read. -/
theorem start_rest_of_end {position : Position}
    (h : lexer.next.1 = .ok ⟨.endOfInput, position⟩) : lexer.start.rest = [] := by
  obtain ⟨lexeme, hreads, hposition⟩ := exists_reads_start lexer
  have hlast : position = lexer.next.2.cursor.position ∧ lexer.next.2.cursor.rest = [] := by
    have hturn := turn_next lexer
    generalize lexer.next = r at h hturn ⊢
    cases hturn <;> simp_all
  have hnil : lexeme = [] := by
    refine Position.eq_nil_of_after_eq (p := lexer.start.position) ?_
    rw [← hreads.position_eq, ← hlast.1]
    exact (hposition _ h).1
  rw [hreads.rest_eq, hnil, hlast.2]
  rfl

/-! ## A run of calls -/

variable {document : String} {m n : Nat} {before before' lexeme lexeme' : List Char}
  {token' : Located Token}

/-- The call reads `lexeme`, of which the first character is at the position of the token,
and in front of which `before` stands in the document. -/
structure ReadFrom (document : String) (n : Nat) (before lexeme : List Char)
    (token : Located Token) : Prop where
  next_eq : (after document n).next.1 = .ok token
  text_eq : document.toList = before ++ (lexeme ++ (after document (n + 1)).cursor.rest)
  position_eq : token.position = Position.start.after before

/-- A call reads from where its token starts to where the next call begins. -/
theorem exists_reads_call (document : String) (n : Nat) : ∃ blanks lexeme,
    Reads (after document n).cursor blanks (after document n).start ∧
      Reads (after document n).start lexeme (after document (n + 1)).cursor := by
  obtain ⟨blanks, hblanks, -⟩ := exists_blanks_start (after document n)
  obtain ⟨lexeme, hlexeme, -⟩ := exists_reads_start (after document n)
  exact ⟨blanks, lexeme, hblanks, hlexeme⟩

theorem exists_reads_before (document : String) (n : Nat) :
    ∃ before, Reads (.ofString document) before (after document n).start := by
  obtain ⟨u, hu⟩ := exists_reads_from_start document n
  obtain ⟨blanks, -, hblanks, -⟩ := exists_reads_call document n
  exact ⟨_, hu.trans hblanks⟩

theorem readFrom_of_reads (hnext : (after document n).next.1 = .ok token)
    (hbefore : Reads (.ofString document) before (after document n).start)
    (hlexeme : Reads (after document n).start lexeme (after document (n + 1)).cursor) :
    ReadFrom document n before lexeme token := by
  obtain ⟨_, _, hposition⟩ := exists_reads_start (after document n)
  refine ⟨hnext, ?_, (hposition token hnext).1.trans hbefore.position_eq⟩
  rw [← hlexeme.rest_eq]
  exact hbefore.rest_eq

/-- Every token is read from somewhere, and only the end from nothing. -/
theorem exists_readFrom (h : (after document n).next.1 = .ok token) :
    ∃ before lexeme, ReadFrom document n before lexeme token ∧
      (token.value ≠ .endOfInput → lexeme ≠ []) := by
  obtain ⟨before, hbefore⟩ := exists_reads_before document n
  obtain ⟨lexeme, hlexeme, hne⟩ := exists_reads_start (after document n)
  exact ⟨before, lexeme, readFrom_of_reads h hbefore hlexeme, (hne token h).2⟩

namespace ReadFrom

/-- **The stretch that a token is read from is determined**: it is what the call reads. -/
theorem reads (h : ReadFrom document n before lexeme token) :
    Reads (.ofString document) before (after document n).start ∧
      Reads (after document n).start lexeme (after document (n + 1)).cursor := by
  obtain ⟨before', hbefore⟩ := exists_reads_before document n
  obtain ⟨-, lexeme', -, hlexeme⟩ := exists_reads_call document n
  have hread := readFrom_of_reads h.next_eq hbefore hlexeme
  -- a position names one place, so both stretches start there
  have hsplits : ∀ {b l}, ReadFrom document n b l token →
      token.position.Splits document.toList b (l ++ (after document (n + 1)).cursor.rest) := by
    intro b l k
    rw [k.position_eq, k.text_eq]
    exact Position.splits_of_after
  obtain ⟨rfl, hafter⟩ := (hsplits h).unique (hsplits hread)
  obtain rfl := List.append_cancel_right hafter
  exact ⟨hbefore, hlexeme⟩

theorem lexeme_ne_nil (h : ReadFrom document n before lexeme token)
    (hend : token.value ≠ .endOfInput) : lexeme ≠ [] := by
  obtain ⟨lexeme', hlexeme, hne⟩ := exists_reads_start (after document n)
  obtain rfl := h.reads.2.eq_of_eq hlexeme
  exact (hne token h.next_eq).2 hend

/-- What an earlier call has read stands in front of what a later one reads. -/
theorem in_order (h : ReadFrom document m before lexeme token)
    (k : ReadFrom document n before' lexeme' token') (hlt : m < n) :
    before ++ lexeme <+: before' := by
  obtain ⟨u, hu⟩ := exists_reads_after document (m + 1) (n - (m + 1))
  rw [Nat.add_sub_cancel' hlt] at hu
  obtain ⟨blanks, -, hblanks, -⟩ := exists_reads_call document n
  obtain rfl := k.reads.1.eq_of_eq
    (((h.reads.1.trans h.reads.2).trans hu).trans hblanks)
  rw [List.append_assoc _ u blanks]
  exact List.prefix_append _ _

/-- A token that is not the end starts before the tokens of later calls. -/
theorem precedes (h : ReadFrom document m before lexeme token)
    (k : ReadFrom document n before' lexeme' token') (hlt : m < n)
    (hend : token.value ≠ .endOfInput) : token.position.Precedes token'.position := by
  obtain ⟨u, hu⟩ := h.in_order k hlt
  rw [h.position_eq, k.position_eq, ← hu, List.append_assoc, Position.after_append]
  exact Position.precedes_after _ (by simp [h.lexeme_ne_nil hend])

/-- Between two tokens of which the second is the next one stands white space, if the tag is
still open, and nothing otherwise. -/
theorem exists_blanks (h : ReadFrom document n before lexeme token)
    (k : ReadFrom document (n + 1) before' lexeme' token') :
    ∃ blanks, before' = before ++ lexeme ++ blanks ∧
      (∀ ch ∈ blanks, Character.isWhiteSpace ch = true) ∧
      (¬ InTag document (n + 1) → blanks = []) := by
  obtain ⟨blanks, hblanks, hwhite, htext⟩ := exists_blanks_start (after document (n + 1))
  refine ⟨blanks, ?_, hwhite, fun houtside =>
    htext ((mode_after_eq_text_iff document (n + 1)).mpr houtside)⟩
  exact k.reads.1.eq_of_eq ((h.reads.1.trans h.reads.2).trans hblanks)

end ReadFrom

/-- The calls on a document read it from the front, stretch by stretch. -/
structure MakesProgress (document : String) : Prop where
  /-- No call moves back, and one that returns a token other than the end reads something. -/
  reads_on : ∀ n, ∃ u, Reads (after document n).cursor u (after document (n + 1)).cursor ∧
    ∀ token, outcome document n = .ok token → token ≠ .endOfInput → u ≠ []
  /-- Every token is read from a stretch, which is not empty unless the token is the end. -/
  read_from : ∀ n token, (after document n).next.1 = .ok token →
    ∃ before lexeme, ReadFrom document n before lexeme token ∧
      (token.value ≠ .endOfInput → lexeme ≠ [])
  /-- The stretches of two tokens do not overlap, and are in the order of the calls. -/
  in_order : ∀ m n before lexeme token before' lexeme' token', m < n →
    ReadFrom document m before lexeme token → ReadFrom document n before' lexeme' token' →
    before ++ lexeme <+: before'
  /-- Positions increase from every token but the end. -/
  positions_increase : ∀ m n before lexeme token before' lexeme' token', m < n →
    ReadFrom document m before lexeme token → ReadFrom document n before' lexeme' token' →
    token.value ≠ .endOfInput → token.position.Precedes token'.position
  /-- The first call starts at the first character. -/
  from_start : ∀ before lexeme token, ReadFrom document 0 before lexeme token → before = []
  /-- Where no error is in between, two successive tokens have at most white space between
  them, and outside of tags nothing. -/
  no_gap : ∀ n before lexeme token before' lexeme' token',
    ReadFrom document n before lexeme token → ReadFrom document (n + 1) before' lexeme' token' →
    ∃ blanks, before' = before ++ lexeme ++ blanks ∧
      (∀ ch ∈ blanks, Character.isWhiteSpace ch = true) ∧
      (¬ InTag document (n + 1) → blanks = [])

theorem makesProgress (document : String) : MakesProgress document where
  reads_on n := by
    obtain ⟨u, hu, hnil⟩ := next_advances (after document n)
    refine ⟨u, hu, fun token houtcome hend hu => hend ?_⟩
    obtain ⟨located, hlocated, rfl⟩ := map_eq_ok_iff.mp houtcome
    exact hnil hu located hlocated
  read_from _ _ := exists_readFrom
  in_order _ _ _ _ _ _ _ _ hlt h k := h.in_order k hlt
  positions_increase _ _ _ _ _ _ _ _ hlt h k := h.precedes k hlt
  from_start _ _ _ h := h.reads.1.eq_of_eq (.refl _)
  no_gap _ _ _ _ _ _ _ h k := h.exists_blanks k

end Lexer

/-- **The calls on a document make progress, and so a whole reading ends**: under every limit,
with the result of the document, after at most one call more than the document has characters. -/
theorem reading_makesProgress (document : String) : Lexer.MakesProgress document ∧
    ∀ limit, (∃ calls last, Assembly.Ends limit (.ofString document) .empty calls last
        (parse document ⟨limit⟩)) ∧
      ∀ calls last result, Assembly.Ends limit (.ofString document) .empty calls last result →
        result = parse document ⟨limit⟩ ∧ calls ≤ document.length + 1 := by
  refine ⟨Lexer.makesProgress document, fun limit => ?_⟩
  obtain ⟨calls, last, hends, hcalls⟩ := exists_ends_parse document limit
  refine ⟨⟨calls, last, hends⟩, fun calls' last' result h => ?_⟩
  obtain ⟨rfl, -, rfl⟩ := hends.unique h
  exact ⟨rfl, hcalls⟩

end TagTemplate
