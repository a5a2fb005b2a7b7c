import TagTemplate.FreeText
import TagTemplate.Proofs.Utf8.Slice

/-!
# A cursor by its offset

A `Cursor` holds what is still unread.  A `ByteCursor` holds the whole text, the offset of the
first unread byte, and a line and a column that it counts itself.  It cuts the text anew for
each look at it, and there is nothing to cut where the offset is inside of a character or beyond
the end: all of its operations may have no result, and its loops end only because the offset
grows.

`ByteCursor.Stands` says where such a cursor stands: the offset is the number of bytes of a
beginning of the text, and line and column are what this beginning leads to.  From there, every
operation has a result, and it leaves the cursor where `ByteCursor.move` takes it, which is past
the characters that it has read.

* `ByteCursor.Stands.nextTimes?`: the characters of a pattern are read one by one.
* `ByteCursor.Stands.advanceWhile?`: a loop reads the run of its test, `IsRun`.
* `ByteCursor.Stands.scanFrom?`: free text is scanned as `FreeText.scanFrom` does it.
-/

namespace TagTemplate

open Utf8 (width)

/-- A place in a text, as an offset into its bytes and as a line and a column. -/
structure ByteCursor where
  input : String
  offset : Nat
  line : Nat
  column : Nat
  deriving DecidableEq, Repr

namespace ByteCursor

/-! ## The operations -/

/-- The cursor before the first character of a text. -/
def ofString (text : String) : ByteCursor := ⟨text, 0, 1, 1⟩

def location (b : ByteCursor) : Position := ⟨b.line, b.column⟩

/-- What is still unread. -/
def rest? (b : ByteCursor) : Option String :=
  Utf8.slice? b.input b.offset (Utf8.encode b.input).length

/-- Whether everything has been read. -/
def atEnd (b : ByteCursor) : Bool := decide ((Utf8.encode b.input).length ≤ b.offset)

/-- The next character, if there is one. -/
def peek? (b : ByteCursor) : Option (Option Char) :=
  b.rest?.map fun rest => rest.toList.head?

/-- The character after the next one, if there is one. -/
def peekSecond? (b : ByteCursor) : Option (Option Char) :=
  b.rest?.map fun rest => rest.toList[1]?

/-- Whether the unread characters start with a pattern. -/
def startsWith? (pattern : List Char) (b : ByteCursor) : Option Bool :=
  b.rest?.map fun rest => pattern.isPrefixOf rest.toList

/-- The cursor after a character that stands there. -/
def past (b : ByteCursor) (ch : Char) : ByteCursor :=
  if ch = '\n' then ⟨b.input, b.offset + ch.utf8Size, b.line + 1, 1⟩
  else ⟨b.input, b.offset + ch.utf8Size, b.line, b.column + 1⟩

/-- Reads the next character, if there is one. -/
def next? (b : ByteCursor) : Option (Option Char × ByteCursor) :=
  b.peek?.map fun
    | none => (none, b)
    | some ch => (some ch, b.past ch)

/-- Reads so many characters, or all that there are. -/
def nextTimes? : Nat → ByteCursor → Option ByteCursor
  | 0, b => some b
  | n + 1, b => b.next?.bind fun (_, d) => nextTimes? n d

/-- Reads a pattern, if the unread characters start with it. -/
def eat? (pattern : List Char) (b : ByteCursor) : Option (Bool × ByteCursor) :=
  (b.startsWith? pattern).bind fun
    | true => (b.nextTimes? pattern.length).map fun d => (true, d)
    | false => some (false, b)

/-! ## The loops -/

/-- The number of bytes after the offset, which every character that is read makes less. -/
def bytesLeft (b : ByteCursor) : Nat := (Utf8.encode b.input).length - b.offset

theorem next?_of_peek? {b : ByteCursor} {ch : Char} (h : b.peek? = some (some ch)) :
    b.next? = some (some ch, b.past ch) := by
  rw [next?, h]
  rfl

theorem offset_lt_of_peek? {b : ByteCursor} {ch : Char} (h : b.peek? = some (some ch)) :
    b.offset < (Utf8.encode b.input).length := by
  obtain ⟨rest, hrest, hhead⟩ := Option.map_eq_some_iff.mp h
  obtain ⟨_, _, _, _, hlength⟩ := Utf8.slice?_eq_some_iff.mp hrest
  obtain ⟨tail, htail⟩ := List.head?_eq_some_iff.mp hhead
  have := ch.utf8Size_pos
  rw [htail, Utf8.width_cons] at hlength
  omega

theorem bytesLeft_past_lt {b : ByteCursor} {ch : Char} (h : b.peek? = some (some ch)) :
    (b.past ch).bytesLeft < b.bytesLeft := by
  have hoffset := offset_lt_of_peek? h
  have := ch.utf8Size_pos
  unfold bytesLeft past
  split <;> (dsimp only; omega)

/-- Reading a character makes progress. -/
theorem bytesLeft_lt_of_next? {b d : ByteCursor} {ch : Char} (h : b.next? = some (some ch, d)) :
    d.bytesLeft < b.bytesLeft := by
  obtain ⟨peeked, hpeek, heq⟩ := Option.map_eq_some_iff.mp h
  cases peeked with
  | none => cases heq
  | some c =>
    cases heq
    exact bytesLeft_past_lt hpeek

/-- Reads characters as long as a test accepts them.  The test has a state, which every answer
may change. -/
def advanceWhile? {σ : Type} (accepts : σ → Char → Bool × σ) (state : σ) (b : ByteCursor) :
    Option (σ × ByteCursor) :=
  match _hpeek : b.peek? with
  | none => none
  | some none => some (state, b)
  | some (some ch) =>
      match accepts state ch with
      | (false, last) => some (last, b)
      | (true, state) =>
          match _hnext : b.next? with
          | none => none
          | some (_, d) => advanceWhile? accepts state d
termination_by b.bytesLeft
decreasing_by
  rw [next?_of_peek? _hpeek] at _hnext
  cases _hnext
  exact bytesLeft_past_lt _hpeek

/-- Reads the white space in front. -/
def skipWhiteSpace? (b : ByteCursor) : Option ByteCursor :=
  (b.advanceWhile? (fun _ ch => (Character.isWhiteSpace ch, ())) ()).map Prod.snd

/-- Reads characters as long as a test accepts them, and cuts them out of the text. -/
def takeWhile? {σ : Type} (accepts : σ → Char → Bool × σ) (state : σ) (b : ByteCursor) :
    Option (String × σ × ByteCursor) :=
  (b.advanceWhile? accepts state).bind fun (last, d) =>
    (Utf8.slice? d.input b.offset d.offset).map fun taken => (taken, last, d)

/-- Appends to `taken` the text up to the next tag or the end. -/
def scanFrom? (taken : String) (b : ByteCursor) : Option (Except Error String × ByteCursor) :=
  match _hpeek : b.peek? with
  | none => none
  | some none => some (.ok taken, b)
  | some (some ch) =>
      match b.startsWith? tagOpen with
      | none => none
      | some true => some (.ok taken, b)
      | some false =>
          match _hnext : b.next? with
          | none => none
          | some (_, d) =>
              if ch ≠ '\\' then scanFrom? (taken.push ch) d
              else
                match _hescaped : d.next? with
                | none => none
                | some (none, e) => some (.error (Fault.loneBackslash.toError b.location), e)
                | some (some escaped, e) =>
                    if escaped = '\\' ∨ escaped = '{' then scanFrom? (taken.push escaped) e
                    else some (.error ((Fault.malformedEscape escaped).toError b.location), e)
termination_by b.bytesLeft
decreasing_by
  all_goals
    rw [next?_of_peek? _hpeek] at _hnext
    cases _hnext
  · exact bytesLeft_past_lt _hpeek
  · exact Nat.lt_trans (bytesLeft_lt_of_next? _hescaped) (bytesLeft_past_lt _hpeek)

/-- Reads free text up to the next tag or the end. -/
def scan? (b : ByteCursor) : Option (Except Error String × ByteCursor) := b.scanFrom? ""

/-! ## Where a cursor stands -/

/-- The cursor stands between two parts of its text. -/
structure Stands (b : ByteCursor) (before after : List Char) : Prop where
  input_eq : b.input.toList = before ++ after
  offset_eq : b.offset = width before
  location_eq : b.location = Position.start.after before

/-- The cursor past characters that stand there. -/
def move (b : ByteCursor) (u : List Char) : ByteCursor :=
  ⟨b.input, b.offset + width u, (b.location.after u).line, (b.location.after u).column⟩

variable {b : ByteCursor} {before after u v pattern taken rest : List Char} {ch : Char}
  {text : String} {σ : Type} {accepts : σ → Char → Bool × σ} {state next last : σ}

theorem stands_ofString (text : String) : (ofString text).Stands [] text.toList :=
  ⟨rfl, rfl, rfl⟩

@[simp] theorem location_move (b : ByteCursor) (u : List Char) :
    (b.move u).location = b.location.after u := rfl

/-- Where nothing is read, nothing changes. -/
@[simp] theorem move_nil (b : ByteCursor) : b.move [] = b := rfl

theorem move_append (b : ByteCursor) (u v : List Char) : b.move (u ++ v) = (b.move u).move v := by
  simp only [move, location, Utf8.width_append, Position.after_append, Nat.add_assoc]

/-- Counting by hand gives the position after the character. -/
theorem past_eq_move (b : ByteCursor) (ch : Char) : b.past ch = b.move [ch] := by
  unfold past move
  rw [Position.after_cons, Position.after_nil, Position.advance, Utf8.width_singleton]
  split <;> rfl

namespace Stands

/-- Past characters that stand there, the cursor stands behind them. -/
theorem move (h : b.Stands before (u ++ after)) : (b.move u).Stands (before ++ u) after where
  input_eq := by rw [List.append_assoc, ← h.input_eq]; rfl
  offset_eq := by rw [Utf8.width_append, ← h.offset_eq]; rfl
  location_eq := by rw [location_move, h.location_eq, Position.after_append]

/-! ## What is seen from there -/

theorem rest? (h : b.Stands before after) : b.rest? = some (String.ofList after) := by
  have htext : b.input.toList = before ++ (String.ofList after).toList ++ [] := by
    rw [String.toList_ofList, List.append_nil, h.input_eq]
  refine Utf8.slice?_eq_some htext h.offset_eq ?_
  rw [Utf8.length_encode, h.input_eq, Utf8.width_append, h.offset_eq, String.toList_ofList]

/-- A part of what is unread is cut out. -/
theorem slice? (h : b.Stands before (u ++ after)) :
    Utf8.slice? b.input b.offset (b.move u).offset = some (String.ofList u) := by
  have htext : b.input.toList = before ++ (String.ofList u).toList ++ after := by
    rw [String.toList_ofList, List.append_assoc, h.input_eq]
  refine Utf8.slice?_eq_some htext h.offset_eq ?_
  rw [String.toList_ofList]
  rfl

theorem isBoundary (h : b.Stands before after) :
    Utf8.IsBoundary (Utf8.encode b.input) b.offset :=
  Utf8.isBoundary_flatMap_iff.mpr ⟨before, after, h.input_eq, h.offset_eq⟩

theorem atEnd_iff (h : b.Stands before after) : b.atEnd = true ↔ after = [] := by
  rw [atEnd, decide_eq_true_iff, Utf8.length_encode, h.input_eq, Utf8.width_append, h.offset_eq]
  constructor
  · intro hle
    exact Utf8.eq_nil_of_width_eq_zero (by omega)
  · rintro rfl
    simp

theorem peek? (h : b.Stands before after) : b.peek? = some after.head? := by
  rw [ByteCursor.peek?, h.rest?, Option.map_some, String.toList_ofList]

theorem peekSecond? (h : b.Stands before after) : b.peekSecond? = some after[1]? := by
  rw [ByteCursor.peekSecond?, h.rest?, Option.map_some, String.toList_ofList]

theorem startsWith? (h : b.Stands before after) (pattern : List Char) :
    b.startsWith? pattern = some (pattern.isPrefixOf after) := by
  rw [ByteCursor.startsWith?, h.rest?, Option.map_some, String.toList_ofList]

/-! ## What is read from there -/

theorem next?_nil (h : b.Stands before []) : b.next? = some (none, b) := by
  rw [ByteCursor.next?, h.peek?]
  rfl

theorem next?_cons (h : b.Stands before (ch :: after)) : b.next? = some (some ch, b.move [ch]) := by
  rw [next?_of_peek? h.peek?, past_eq_move]

/-- The cursor behind the character that stands there. -/
theorem tail (h : b.Stands before (ch :: after)) : (b.move [ch]).Stands (before ++ [ch]) after :=
  move (u := [ch]) h

/-- The characters of a pattern are read one by one. -/
theorem nextTimes? (h : b.Stands before (u ++ after)) :
    b.nextTimes? u.length = some (b.move u) := by
  induction u generalizing b before with
  | nil => rfl
  | cons ch u ih =>
    have hmore := ih h.tail
    rw [← move_append] at hmore
    rw [List.length_cons, ByteCursor.nextTimes?, h.next?_cons, Option.bind_some]
    exact hmore

theorem eat?_of_prefix (h : b.Stands before (pattern ++ after)) :
    b.eat? pattern = some (true, b.move pattern) := by
  have hprefix : pattern.isPrefixOf (pattern ++ after) = true :=
    List.isPrefixOf_iff_prefix.mpr (List.prefix_append pattern after)
  rw [ByteCursor.eat?, h.startsWith?, hprefix, Option.bind_some, h.nextTimes?]
  rfl

theorem eat?_of_not_prefix (h : b.Stands before after) (hnot : ¬ pattern <+: after) :
    b.eat? pattern = some (false, b) := by
  have hprefix : pattern.isPrefixOf after = false :=
    Bool.eq_false_iff.mpr (mt List.isPrefixOf_iff_prefix.mp hnot)
  rw [ByteCursor.eat?, h.startsWith?, hprefix]
  rfl

end Stands

/-! ## The run of a test -/

/-- Asked about the characters of `taken ++ rest` one by one, a test in the state `state` accepts
those of `taken`.  There it has come to the end, or it refuses the first character of `rest`;
the last answer leaves it in the state `last`. -/
inductive IsRun (accepts : σ → Char → Bool × σ) : σ → List Char → List Char → σ → Prop where
  | atEnd {state : σ} : IsRun accepts state [] [] state
  | refused {state last : σ} {ch : Char} {rest : List Char} (h : accepts state ch = (false, last)) :
      IsRun accepts state [] (ch :: rest) last
  | accepted {state next last : σ} {ch : Char} {taken rest : List Char}
      (h : accepts state ch = (true, next)) (hmore : IsRun accepts next taken rest last) :
      IsRun accepts state (ch :: taken) rest last

/-- Whether a test accepts all of the characters, one after the other. -/
def acceptsAll (accepts : σ → Char → Bool × σ) : σ → List Char → Bool
  | _, [] => true
  | state, ch :: cs => (accepts state ch).1 && acceptsAll accepts (accepts state ch).2 cs

/-- Every test has a run. -/
theorem exists_isRun (accepts : σ → Char → Bool × σ) (state : σ) (cs : List Char) :
    ∃ taken rest last, cs = taken ++ rest ∧ IsRun accepts state taken rest last := by
  induction cs generalizing state with
  | nil => exact ⟨[], [], state, rfl, .atEnd⟩
  | cons ch cs ih =>
    obtain ⟨⟨accepted, next⟩, hanswer⟩ : ∃ answer, accepts state ch = answer := ⟨_, rfl⟩
    cases accepted with
    | false => exact ⟨[], ch :: cs, next, rfl, .refused hanswer⟩
    | true =>
      obtain ⟨taken, rest, last, rfl, hrun⟩ := ih next
      exact ⟨ch :: taken, rest, last, rfl, .accepted hanswer hrun⟩

/-- **A run is as long as can be.**  The test accepts all of a beginning exactly if the run
goes so far. -/
theorem IsRun.acceptsAll_iff (h : IsRun accepts state taken rest last) (hu : u <+: taken ++ rest) :
    acceptsAll accepts state u = true ↔ u <+: taken := by
  induction h generalizing u with
  | atEnd =>
    obtain rfl := List.prefix_nil.mp hu
    exact iff_of_true rfl (List.prefix_refl [])
  | refused h =>
    cases u with
    | nil => exact iff_of_true rfl (List.prefix_refl [])
    | cons ch' u =>
      obtain ⟨rfl, -⟩ := List.cons_prefix_cons.mp hu
      simp [acceptsAll, h]
  | accepted h hmore ih =>
    cases u with
    | nil => exact iff_of_true rfl List.nil_prefix
    | cons ch' u =>
      obtain ⟨rfl, htail⟩ := List.cons_prefix_cons.mp hu
      simp [acceptsAll, h, ih htail, List.cons_prefix_cons]

/-- The run of a test without a state takes the characters that it accepts. -/
theorem IsRun.eq_takeWhile {p : Char → Bool} {first last : Unit}
    (h : IsRun (fun _ ch => (p ch, ())) first taken rest last) :
    taken = (taken ++ rest).takeWhile p := by
  induction h with
  | atEnd => rfl
  | refused h =>
    have hp := congrArg Prod.fst h
    dsimp only at hp
    simp [hp]
  | accepted h hmore ih =>
    have hp := congrArg Prod.fst h
    dsimp only at hp
    simpa [hp] using ih

/-! The loop is opened only in these three cases, one for each way in which a run goes on. -/

theorem advanceWhile?_of_none (hpeek : b.peek? = some none) :
    b.advanceWhile? accepts state = some (state, b) := by
  rw [advanceWhile?]
  split <;> simp_all

theorem advanceWhile?_of_refused (hpeek : b.peek? = some (some ch))
    (h : accepts state ch = (false, last)) : b.advanceWhile? accepts state = some (last, b) := by
  rw [advanceWhile?]
  split <;> simp_all

theorem advanceWhile?_of_accepted (hpeek : b.peek? = some (some ch))
    (h : accepts state ch = (true, next)) :
    b.advanceWhile? accepts state = (b.past ch).advanceWhile? accepts next := by
  have hnext := next?_of_peek? hpeek
  rw [advanceWhile?]
  -- all cases but the last one contradict what is peeked, what is answered or `hnext`
  split
  · simp_all
  · simp_all
  · split <;> simp_all
    split <;> simp_all

namespace Stands

/-- A loop reads the run of its test. -/
theorem advanceWhile? (h : b.Stands before (taken ++ rest))
    (hrun : IsRun accepts state taken rest last) :
    b.advanceWhile? accepts state = some (last, b.move taken) := by
  induction hrun generalizing b before with
  | atEnd => exact advanceWhile?_of_none h.peek?
  | refused hanswer => exact advanceWhile?_of_refused h.peek? hanswer
  | accepted hanswer hmore ih =>
    rw [advanceWhile?_of_accepted h.peek? hanswer, past_eq_move, ih h.tail, ← move_append]
    rfl

/-- The white space in front is read. -/
theorem skipWhiteSpace? (h : b.Stands before after) :
    b.skipWhiteSpace? = some (b.move (after.takeWhile Character.isWhiteSpace)) := by
  obtain ⟨taken, rest, last, rfl, hrun⟩ :=
    exists_isRun (fun _ ch => (Character.isWhiteSpace ch, ())) () after
  rw [ByteCursor.skipWhiteSpace?, h.advanceWhile? hrun, ← hrun.eq_takeWhile]
  rfl

theorem takeWhile? (h : b.Stands before (taken ++ rest))
    (hrun : IsRun accepts state taken rest last) :
    b.takeWhile? accepts state = some (String.ofList taken, last, b.move taken) := by
  rw [ByteCursor.takeWhile?, h.advanceWhile? hrun, Option.bind_some]
  exact congrArg (Option.map _) h.slice?

end Stands

/-! ## Free text -/

theorem scanFrom?_of_none (hpeek : b.peek? = some none) :
    b.scanFrom? text = some (.ok text, b) := by
  rw [scanFrom?]
  split <;> simp_all

theorem scanFrom?_of_tag (hpeek : b.peek? = some (some ch))
    (htag : b.startsWith? tagOpen = some true) : b.scanFrom? text = some (.ok text, b) := by
  rw [scanFrom?]
  split <;> simp_all

theorem scanFrom?_of_plain (hpeek : b.peek? = some (some ch))
    (htag : b.startsWith? tagOpen = some false) (hch : ch ≠ '\\') :
    b.scanFrom? text = (b.past ch).scanFrom? (text.push ch) := by
  have hnext := next?_of_peek? hpeek
  rw [scanFrom?]
  split
  · simp_all
  · simp_all
  · split <;> simp_all
    split <;> simp_all

theorem scanFrom?_of_backslash (hpeek : b.peek? = some (some '\\'))
    (htag : b.startsWith? tagOpen = some false) :
    b.scanFrom? text = (b.past '\\').next?.bind fun
      | (none, d) => some (.error (Fault.loneBackslash.toError b.location), d)
      | (some escaped, d) =>
          if escaped = '\\' ∨ escaped = '{' then d.scanFrom? (text.push escaped)
          else some (.error ((Fault.malformedEscape escaped).toError b.location), d) := by
  have hnext := next?_of_peek? hpeek
  rw [scanFrom?]
  split
  · simp_all
  · simp_all
  · split <;> simp_all
    split <;> simp_all
    split <;> simp_all

/-- Whether a tag opens is seen from the two characters in front. -/
theorem Stands.startsWith?_tagOpen (h : b.Stands before (ch :: rest)) :
    b.startsWith? tagOpen = some (decide (ch = '{' ∧ rest.head? = some '$')) := by
  rw [h.startsWith?, Option.some.injEq, Bool.eq_iff_iff, List.isPrefixOf_iff_prefix,
    decide_eq_true_iff]
  cases rest <;> simp [tagOpen, eq_comm]

theorem Stands.startsWith?_backslash (h : b.Stands before ('\\' :: rest)) :
    b.startsWith? tagOpen = some false := by
  rw [h.startsWith?_tagOpen]
  rfl

theorem Stands.scanFrom?_escape (h : b.Stands before ('\\' :: ch :: rest)) (text : String) :
    b.scanFrom? text =
      if ch = '\\' ∨ ch = '{' then (b.move ['\\', ch]).scanFrom? (text.push ch)
      else some (.error ((Fault.malformedEscape ch).toError b.location), b.move ['\\', ch]) := by
  have hmove : b.move ['\\', ch] = (b.move ['\\']).move [ch] := move_append b ['\\'] [ch]
  rw [scanFrom?_of_backslash h.peek? h.startsWith?_backslash, past_eq_move, h.tail.next?_cons,
    hmove]
  rfl

/-- Free text is scanned as by a cursor that holds what is unread. -/
theorem Stands.scanFrom? (h : b.Stands before after) (text : String) :
    ∃ u, Cursor.Reads ⟨after, b.location⟩ u (FreeText.scanFrom text b.location after).2 ∧
      b.scanFrom? text = some ((FreeText.scanFrom text b.location after).1, b.move u) := by
  generalize hposition : b.location = position
  fun_induction FreeText.scanFrom text position after generalizing b before with
  | case1 text position => exact ⟨[], .refl _, scanFrom?_of_none h.peek?⟩
  | case2 text position =>
    refine ⟨['\\'], .cons (.refl _), ?_⟩
    rw [scanFrom?_of_backslash h.peek? h.startsWith?_backslash, past_eq_move, h.tail.next?_nil,
      Option.bind_some, hposition]
  | case3 text position d rest hd ih =>
    obtain ⟨u, hu, hscan⟩ := ih (b := b.move ['\\', d]) (Stands.move (u := ['\\', d]) h)
      (by rw [← hposition]; rfl)
    refine ⟨'\\' :: d :: u, hu.cons.cons, ?_⟩
    rw [h.scanFrom?_escape, if_pos hd, hscan, ← move_append]
    rfl
  | case4 text position d rest hd =>
    refine ⟨['\\', d], .cons (.cons (.refl _)), ?_⟩
    rw [h.scanFrom?_escape, if_neg hd, hposition]
  | case5 text position c rest hc htag =>
    refine ⟨[], .refl _, scanFrom?_of_tag h.peek? ?_⟩
    rw [h.startsWith?_tagOpen, decide_eq_true htag]
  | case6 text position c rest hc htag ih =>
    obtain ⟨u, hu, hscan⟩ := ih h.tail (by rw [← hposition]; rfl)
    refine ⟨c :: u, hu.cons, ?_⟩
    rw [scanFrom?_of_plain h.peek? (by rw [h.startsWith?_tagOpen, decide_eq_false htag]) hc,
      past_eq_move, hscan, ← move_append]
    rfl

end ByteCursor
end TagTemplate
