import TagTemplate.Proofs.Cursor.Bytes
import TagTemplate.Proofs.Errors.Position

/-!
# Everything that can be done with a cursor

A cursor can be asked what is ahead, it can read, and copies of it can be kept and put back.  A
`Session` does this request by request, with any kind of cursor.  This file runs it with two: a
`ByteCursor`, which cuts the text at an offset and may find nothing to cut, and a `Cursor`, which
holds what is unread.

`Effect` says what an operation may do where a cursor stands: what it replies, and which of the
unread characters it reads.  All else follows from its cases.

* `ByteCursor.Stands.exists_act`: every operation has a result, with both kinds of cursors the
  same one, and it is as `Effect` says.
* `Session.exists_perform`, `Session.exists_run`: a session keeps its cursor, and the copies of
  it, where the text can be cut, and it goes on with both kinds of cursors alike.
* `Session.run_sound`: so it is from the start of any text on, whatever is requested.
-/

namespace TagTemplate

/-! ## Operations -/

/-- What can be done with a cursor. -/
inductive Operation : Type 1 where
  | location
  | atEnd
  | rest
  | peek
  | peekSecond
  | startsWith (pattern : List Char)
  | next
  | eat (pattern : List Char)
  | skipWhiteSpace
  | takeWhile {σ : Type} (accepts : σ → Char → Bool × σ) (state : σ)
  | scanText

/-- What comes back. -/
inductive Reply where
  | done
  | position (position : Position)
  | truth (value : Bool)
  | char (ch : Option Char)
  | text (text : String)
  | scanned (result : Except Error String)

/-- An operation with a cursor that may find nothing to cut. -/
def ByteCursor.act : Operation → ByteCursor → Option (Reply × ByteCursor)
  | .location, b => some (.position b.location, b)
  | .atEnd, b => some (.truth b.atEnd, b)
  | .rest, b => b.rest?.map fun rest => (.text rest, b)
  | .peek, b => b.peek?.map fun ch => (.char ch, b)
  | .peekSecond, b => b.peekSecond?.map fun ch => (.char ch, b)
  | .startsWith pattern, b => (b.startsWith? pattern).map fun value => (.truth value, b)
  | .next, b => b.next?.map fun (ch, d) => (.char ch, d)
  | .eat pattern, b => (b.eat? pattern).map fun (value, d) => (.truth value, d)
  | .skipWhiteSpace, b => b.skipWhiteSpace?.map fun d => (.done, d)
  | .takeWhile accepts state, b =>
      (b.takeWhile? accepts state).map fun (taken, _, d) => (.text taken, d)
  | .scanText, b => b.scan?.map fun (result, d) => (.scanned result, d)

/-- A test that says what state it leaves behind only where it accepts. -/
def stopping {σ : Type} (accepts : σ → Char → Bool × σ) (state : σ) (ch : Char) : Option σ :=
  match accepts state ch with
  | (true, next) => some next
  | (false, _) => none

/-- An operation with a cursor that holds what is unread. -/
def Cursor.act : Operation → Cursor → Reply × Cursor
  | .location, c => (.position c.position, c)
  | .atEnd, c => (.truth c.atEnd, c)
  | .rest, c => (.text c.remaining, c)
  | .peek, c => (.char c.peek?, c)
  | .peekSecond, c => (.char c.peekSecond?, c)
  | .startsWith pattern, c => (.truth (c.startsWith pattern), c)
  | .next, c =>
      match c.next? with
      | none => (.char none, c)
      | some (ch, d) => (.char (some ch), d)
  | .eat pattern, c =>
      match c.eat? pattern with
      | none => (.truth false, c)
      | some d => (.truth true, d)
  | .skipWhiteSpace, c => (.done, c.skipWhiteSpace)
  | .takeWhile accepts state, c =>
      let (taken, d) := c.takeRun (stopping accepts) state
      (.text taken, d)
  | .scanText, c =>
      let (result, d) := FreeText.scan c
      (.scanned result, d)

/-- What an operation does at a cursor with the unread characters `unread`: its reply, and the
characters that it reads. -/
inductive Effect (b : ByteCursor) (unread : List Char) : Operation → Reply → List Char → Prop where
  | location : Effect b unread .location (.position b.location) []
  | atEnd : Effect b unread .atEnd (.truth unread.isEmpty) []
  | rest : Effect b unread .rest (.text (String.ofList unread)) []
  | peek : Effect b unread .peek (.char unread.head?) []
  | peekSecond : Effect b unread .peekSecond (.char unread[1]?) []
  | startsWith {pattern : List Char} :
      Effect b unread (.startsWith pattern) (.truth (decide (pattern <+: unread))) []
  | next {ch : Char} {rest : List Char} (h : unread = ch :: rest) :
      Effect b unread .next (.char (some ch)) [ch]
  | next_atEnd (h : unread = []) : Effect b unread .next (.char none) []
  | eat {pattern : List Char} (h : pattern <+: unread) :
      Effect b unread (.eat pattern) (.truth true) pattern
  | eat_refused {pattern : List Char} (h : ¬ pattern <+: unread) :
      Effect b unread (.eat pattern) (.truth false) []
  | skipWhiteSpace :
      Effect b unread .skipWhiteSpace .done (unread.takeWhile Character.isWhiteSpace)
  /-- The run of the test is read and returned, and the test is left in the state of its last
  answer.  No longer beginning of what is unread is accepted. -/
  | takeWhile {σ : Type} {accepts : σ → Char → Bool × σ} {state last : σ} {taken rest : List Char}
      (h : unread = taken ++ rest) (hrun : ByteCursor.IsRun accepts state taken rest last)
      (hresult : b.takeWhile? accepts state = some (String.ofList taken, last, b.move taken))
      (hlongest : ∀ u, u <+: unread →
        (ByteCursor.acceptsAll accepts state u = true ↔ u <+: taken)) :
      Effect b unread (.takeWhile accepts state) (.text (String.ofList taken)) taken
  /-- Free text is read, up to a tag or to a wrong escape. -/
  | scanText {result : Except Error String} {u : List Char} (h : u <+: unread) :
      Effect b unread .scanText (.scanned result) u

/-! ## One operation -/

/-- The cursor that holds what is unread where an offset stands. -/
def ByteCursor.view (b : ByteCursor) : Cursor := ⟨(b.rest?.getD "").toList, b.location⟩

variable {text : String} {b : ByteCursor} {before after taken rest pattern : List Char}
  {σ : Type} {accepts : σ → Char → Bool × σ} {state last : σ}

theorem takeRunFrom_stopping (h : ByteCursor.IsRun accepts state taken rest last)
    (text : String) (position : Position) :
    Cursor.takeRunFrom (stopping accepts) state text position (taken ++ rest) =
      (text ++ String.ofList taken, ⟨rest, position.after taken⟩) := by
  induction h generalizing text position with
  | atEnd => simp [Cursor.takeRunFrom]
  | refused h => simp [Cursor.takeRunFrom, stopping, h]
  | accepted h hmore ih =>
    rw [List.cons_append, Cursor.takeRunFrom, stopping, h]
    dsimp only
    rw [ih, Position.after_cons]
    congr 1
    apply String.toList_inj.mp
    simp

namespace ByteCursor.Stands

theorem view_eq (h : b.Stands before after) : b.view = ⟨after, b.location⟩ := by
  rw [view, h.rest?, Option.getD_some, String.toList_ofList]

/-- **Every operation has a result where a cursor stands**, the same one for the cursor that holds
what is unread. -/
theorem exists_act (h : b.Stands before after) (operation : Operation) :
    ∃ reply u d, b.act operation = some (reply, b.move u) ∧
      b.view.act operation = (reply, d) ∧ Cursor.Reads b.view u d ∧
      Effect b after operation reply u := by
  rw [h.view_eq]
  cases operation with
  | location => exact ⟨_, [], _, rfl, rfl, .refl _, .location⟩
  | atEnd =>
    have hatEnd : b.atEnd = after.isEmpty := by
      rw [Bool.eq_iff_iff, h.atEnd_iff, List.isEmpty_iff]
    refine ⟨_, [], _, ?_, rfl, .refl _, .atEnd⟩
    rw [act, hatEnd]
    rfl
  | rest =>
    refine ⟨_, [], _, ?_, rfl, .refl _, .rest⟩
    rw [act, h.rest?]
    rfl
  | peek =>
    refine ⟨_, [], _, ?_, rfl, .refl _, .peek⟩
    rw [act, h.peek?]
    rfl
  | peekSecond =>
    have hsecond : after[1]? = after.tail.head? := by
      cases after <;> simp [List.head?_eq_getElem?]
    refine ⟨.char after[1]?, [], _, ?_, ?_, .refl _, .peekSecond⟩
    · rw [act, h.peekSecond?]
      rfl
    · rw [hsecond]
      rfl
  | startsWith pattern =>
    have hprefix : pattern.isPrefixOf after = decide (pattern <+: after) := by
      rw [Bool.eq_iff_iff, List.isPrefixOf_iff_prefix, decide_eq_true_iff]
    refine ⟨_, [], _, ?_, ?_, .refl _, .startsWith⟩
    · rw [act, h.startsWith?, hprefix]
      rfl
    · rw [← hprefix]
      rfl
  | next =>
    cases after with
    | nil =>
      refine ⟨.char none, [], _, ?_, rfl, .refl _, .next_atEnd rfl⟩
      rw [act, h.next?_nil]
      rfl
    | cons ch rest =>
      refine ⟨.char (some ch), [ch], _, ?_, rfl, .cons (.refl _), .next rfl⟩
      rw [act, h.next?_cons]
      rfl
  | eat pattern =>
    cases heat : Cursor.eat? ⟨after, b.location⟩ pattern with
    | none =>
      have hnot := Cursor.eat?_eq_none_iff.mp heat
      refine ⟨.truth false, [], _, ?_, ?_, .refl _, .eat_refused hnot⟩
      · rw [act, h.eat?_of_not_prefix hnot]
        rfl
      · rw [Cursor.act, heat]
    | some d =>
      have hreads := Cursor.reads_of_eat? heat
      obtain rfl : after = pattern ++ d.rest := hreads.rest_eq
      refine ⟨.truth true, pattern, d, ?_, ?_, hreads, .eat (List.prefix_append _ _)⟩
      · rw [act, h.eat?_of_prefix]
        rfl
      · rw [Cursor.act, heat]
  | skipWhiteSpace =>
    refine ⟨.done, _, _, ?_, rfl, Cursor.reads_skipWhiteSpace _, .skipWhiteSpace⟩
    rw [act, h.skipWhiteSpace?]
    rfl
  | takeWhile accepts state =>
    obtain ⟨taken, rest, last, rfl, hrun⟩ := exists_isRun accepts state after
    have hresult := h.takeWhile? hrun
    refine ⟨.text (String.ofList taken), taken, ⟨rest, b.location.after taken⟩, ?_, ?_, ⟨rfl, rfl⟩,
      .takeWhile rfl hrun hresult fun u hu => hrun.acceptsAll_iff hu⟩
    · rw [act, hresult]
      rfl
    · rw [Cursor.act, Cursor.takeRun, takeRunFrom_stopping hrun, String.empty_append]
  | scanText =>
    obtain ⟨u, hu, hscan⟩ := h.scanFrom? ""
    refine ⟨.scanned (FreeText.scanFrom "" b.location after).1, u, _, ?_, rfl, hu,
      .scanText ⟨_, hu.rest_eq.symm⟩⟩
    rw [act, scan?, hscan]
    rfl

/-- What an operation leads to, seen as a cursor that holds what is unread. -/
theorem view_move {u : List Char} {d : Cursor} (h : b.Stands before after)
    (hread : Cursor.Reads b.view u d) :
    (b.move u).Stands (before ++ u) d.rest ∧ (b.move u).view = d := by
  rw [h.view_eq] at hread
  obtain rfl : after = u ++ d.rest := hread.rest_eq
  refine ⟨h.move, ?_⟩
  rw [h.move.view_eq, location_move, ← hread.position_eq]

end ByteCursor.Stands

/-! ## Sessions -/

/-- What can be asked for in a session. -/
inductive Request : Type 1 where
  | act (operation : Operation)
  /-- Keeps a copy of the cursor. -/
  | save
  /-- Puts back the copy with the index, if there is one. -/
  | restore (index : Nat)

/-- A cursor and the copies that are kept. -/
structure Session (κ : Type) where
  current : κ
  saved : List κ

namespace Session

variable {κ ι : Type}

def start (c : κ) : Session κ := ⟨c, []⟩

def map (f : κ → ι) (s : Session κ) : Session ι := ⟨f s.current, s.saved.map f⟩

/-- All cursors that there are. -/
def cursors (s : Session κ) : List κ := s.current :: s.saved

/-- Does what is requested, if its operation has a result. -/
def perform (act : Operation → κ → Option (Reply × κ)) (s : Session κ) :
    Request → Option (Reply × Session κ)
  | .act operation => (act operation s.current).map fun (reply, c) => (reply, ⟨c, s.saved⟩)
  | .save => some (.done, ⟨s.current, s.current :: s.saved⟩)
  | .restore index =>
      match s.saved[index]? with
      | none => some (.truth false, s)
      | some c => some (.truth true, ⟨c, s.saved⟩)

/-- Does what is requested one after the other, and gives the replies. -/
def run (act : Operation → κ → Option (Reply × κ)) (s : Session κ) :
    List Request → Option (List Reply × Session κ)
  | [] => some ([], s)
  | request :: requests =>
      (s.perform act request).bind fun (reply, s) =>
        (s.run act requests).map fun (replies, s) => (reply :: replies, s)

end Session

/-- An operation with a cursor that holds what is unread always has a result. -/
def Cursor.act? (operation : Operation) (c : Cursor) : Option (Reply × Cursor) :=
  some (c.act operation)

/-- The cursor stands somewhere in the text. -/
def ByteCursor.IsIn (text : String) (b : ByteCursor) : Prop :=
  b.input = text ∧ ∃ before after, b.Stands before after

variable {s : Session ByteCursor}

/-- **One request** has a result, the same one with both kinds of cursors, and it leaves all
cursors in the text. -/
theorem Session.exists_perform (h : ∀ b ∈ s.cursors, b.IsIn text) (request : Request) :
    ∃ reply next, s.perform ByteCursor.act request = some (reply, next) ∧
      (s.map ByteCursor.view).perform Cursor.act? request =
        some (reply, next.map ByteCursor.view) ∧
      ∀ b ∈ next.cursors, b.IsIn text := by
  have hsaved : ∀ b ∈ s.saved, b.IsIn text := fun b hb => h b (List.mem_cons_of_mem _ hb)
  have hcurrent : s.current.IsIn text := h _ List.mem_cons_self
  cases request with
  | act operation =>
    obtain ⟨hinput, before, after, hstands⟩ := hcurrent
    obtain ⟨reply, u, d, hact, hview, hread, -⟩ := hstands.exists_act operation
    obtain ⟨hmove, rfl⟩ := hstands.view_move hread
    refine ⟨reply, ⟨s.current.move u, s.saved⟩, ?_, ?_, ?_⟩
    · rw [Session.perform, hact]
      rfl
    · rw [Session.perform, Session.map, Cursor.act?, hview]
      rfl
    · exact List.forall_mem_cons.mpr ⟨⟨hinput, _, _, hmove⟩, hsaved⟩
  | save =>
    exact ⟨.done, ⟨s.current, s.current :: s.saved⟩, rfl, rfl,
      List.forall_mem_cons.mpr ⟨hcurrent, h⟩⟩
  | restore index =>
    cases hindex : s.saved[index]? with
    | none =>
      refine ⟨.truth false, s, ?_, ?_, h⟩
      · rw [Session.perform, hindex]
      · simp [Session.perform, Session.map, hindex]
    | some c =>
      refine ⟨.truth true, ⟨c, s.saved⟩, ?_, ?_, ?_⟩
      · rw [Session.perform, hindex]
      · simp [Session.perform, Session.map, hindex]
      · exact List.forall_mem_cons.mpr ⟨hsaved c (List.mem_of_getElem? hindex), hsaved⟩

theorem Session.exists_run (h : ∀ b ∈ s.cursors, b.IsIn text) (requests : List Request) :
    ∃ replies last, s.run ByteCursor.act requests = some (replies, last) ∧
      (s.map ByteCursor.view).run Cursor.act? requests =
        some (replies, last.map ByteCursor.view) ∧
      ∀ b ∈ last.cursors, b.IsIn text := by
  induction requests generalizing s with
  | nil => exact ⟨[], s, rfl, rfl, h⟩
  | cons request requests ih =>
    obtain ⟨reply, next, hperform, hview, hnext⟩ := Session.exists_perform h request
    obtain ⟨replies, last, hrun, hviews, hlast⟩ := ih hnext
    refine ⟨reply :: replies, last, ?_, ?_, hlast⟩
    · rw [Session.run, hperform, Option.bind_some]
      exact congrArg (Option.map _) hrun
    · rw [Session.run, hview, Option.bind_some]
      exact congrArg (Option.map _) hviews

/-! ## What holds in every session -/

/-- What is promised of a cursor in a text, behind `before` and in front of `after`. -/
structure ByteCursor.Sound (text : String) (b : ByteCursor) (before after : List Char) : Prop where
  input_eq : b.input = text
  /-- The offset is not beyond the end of the text and not inside of a character. -/
  isBoundary : b.offset ≤ (Utf8.encode text).length ∧ Utf8.IsBoundary (Utf8.encode text) b.offset
  /-- It is the number of bytes that have been read, and what is cut out there is all the rest. -/
  offset_eq : b.offset = (Utf8.encode (String.ofList before)).length
  rest?_eq : b.rest? = some (String.ofList after)
  /-- The line counts the line feeds that have been read, and the column the characters after
  the last of them. -/
  splits : b.location.Splits text.toList before after
  atEnd_iff : b.atEnd = true ↔ after = []
  /-- The cursor that holds what is unread stands at the same place. -/
  view_eq : b.view = ⟨after, b.location⟩
  /-- Every operation has a result, and moves the cursor past the characters that it reads. -/
  acts (operation : Operation) : ∃ reply u rest, after = u ++ rest ∧
    b.act operation = some (reply, b.move u) ∧ Effect b after operation reply u

theorem ByteCursor.Stands.sound (h : b.Stands before after) : b.Sound b.input before after where
  input_eq := rfl
  isBoundary := ⟨h.isBoundary.1, h.isBoundary⟩
  offset_eq := by rw [h.offset_eq, Utf8.length_encode, String.toList_ofList]
  rest?_eq := h.rest?
  splits := by
    rw [h.location_eq, h.input_eq]
    exact Position.splits_of_after
  atEnd_iff := h.atEnd_iff
  view_eq := h.view_eq
  acts operation := by
    obtain ⟨reply, u, d, hact, -, hread, heffect⟩ := h.exists_act operation
    rw [h.view_eq] at hread
    exact ⟨reply, u, d.rest, hread.rest_eq, hact, heffect⟩

/-- **Whatever is requested, a cursor stays sound**, and so do all copies of it.  Every request
has a result, and the cursor that holds what is unread gives the same replies. -/
theorem Session.run_sound (text : String) (requests : List Request) :
    ∃ replies session,
      (Session.start (ByteCursor.ofString text)).run ByteCursor.act requests =
        some (replies, session) ∧
      (Session.start (Cursor.ofString text)).run Cursor.act? requests =
        some (replies, session.map ByteCursor.view) ∧
      ∀ b ∈ session.cursors, ∃ before after, b.Sound text before after := by
  have hstands := ByteCursor.stands_ofString text
  have hstart : ∀ b ∈ (Session.start (ByteCursor.ofString text)).cursors, b.IsIn text := by
    intro b hb
    obtain rfl := List.mem_singleton.mp hb
    exact ⟨rfl, [], text.toList, hstands⟩
  obtain ⟨replies, session, hrun, hview, hlast⟩ := Session.exists_run hstart requests
  have hsame : (Session.start (ByteCursor.ofString text)).map ByteCursor.view =
      Session.start (Cursor.ofString text) :=
    congrArg Session.start hstands.view_eq
  rw [hsame] at hview
  refine ⟨replies, session, hrun, hview, fun b hb => ?_⟩
  obtain ⟨rfl, before, after, hb⟩ := hlast b hb
  exact ⟨before, after, hb.sound⟩

end TagTemplate
