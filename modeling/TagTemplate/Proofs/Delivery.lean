import TagTemplate.Writer

/-!
# Delivering the canonical text

A writer may take any part of what it is offered, and it may give up at any time.  Whatever it
does, it gets the bytes of the canonical text in order and each of them once, and the result
says whether it got them all (`writeNode_delivers`).

`Writer.Passes` follows the offers one by one: a moment is what has been accepted so far, the
state of the writer, and what is still to be offered.  Two facts carry everything.

* `Writer.Passes.append_eq`: at every moment, what has been accepted and what is left make up
  the bytes.
* `Writer.settles_writeAll`: the writing stops at such a moment, because nothing is left or
  because the writer has refused the offer that was made there.  After a refusal nothing more is
  offered: the writer stays in the state in which the refusal has left it.
-/

namespace TagTemplate

/-- Why an answer ends the writing, if it does. -/
def Answer.refusal? : Answer → Option String
  | accepted 0 => some Writer.acceptedNothing
  | accepted (_ + 1) => none
  | failed reason => some reason

/-- An answer that does not end the writing accepts something. -/
theorem Answer.exists_accepted_of_refusal?_eq_none {answer : Answer}
    (h : answer.refusal? = none) : ∃ count, answer = .accepted (count + 1) := by
  cases answer with
  | accepted count =>
    cases count with
    | zero => cases h
    | succ count => exact ⟨count, rfl⟩
  | failed reason => cases h

namespace Writer

variable {σ : Type} {writer : Writer σ} {state now next : σ} {bytes written left : List UInt8}

/-! ## The moments of a delivery -/

/-- A moment while bytes are written: `written` has been accepted, the writer is in the state
`now`, and `left` is offered next, if there is anything left. -/
inductive Passes (writer : Writer σ) (state : σ) (bytes : List UInt8) :
    List UInt8 → σ → List UInt8 → Prop where
  | start : Passes writer state bytes [] state bytes
  | accepted {written left : List UInt8} {now next : σ} {count : Nat}
      (h : Passes writer state bytes written now left) (hleft : left ≠ [])
      (hoffer : writer.offer now left = (.accepted (count + 1), next)) :
      Passes writer state bytes (written ++ left.take (count + 1)) next (left.drop (count + 1))

/-- How the writing of bytes comes to its end. -/
inductive Settles (writer : Writer σ) (state : σ) (bytes : List UInt8) : Delivery σ → Prop where
  /-- Nothing is left. -/
  | complete {written : Array UInt8} {now : σ}
      (h : Passes writer state bytes written.toList now []) :
      Settles writer state bytes ⟨written, now, none⟩
  /-- The writer has refused what is left. -/
  | refused {written : Array UInt8} {left : List UInt8} {now next : σ} {answer : Answer}
      {reason : String} (h : Passes writer state bytes written.toList now left)
      (hleft : left ≠ []) (hoffer : writer.offer now left = (answer, next))
      (hrefusal : answer.refusal? = some reason) :
      Settles writer state bytes ⟨written, next, some (.io reason)⟩

/-! ## The steps of the writing -/

theorem writeFrom_nil (written : Array UInt8) :
    writer.writeFrom written state [] = ⟨written, state, none⟩ := by
  rw [writeFrom]

/-- An offer that is refused ends the writing. -/
theorem writeFrom_of_refusal {answer : Answer} {reason : String} (written : Array UInt8)
    (hleft : left ≠ []) (hoffer : writer.offer now left = (answer, next))
    (hrefusal : answer.refusal? = some reason) :
    writer.writeFrom written now left = ⟨written, next, some (.io reason)⟩ := by
  obtain ⟨byte, bytes, rfl⟩ := List.exists_cons_of_ne_nil hleft
  rw [writeFrom, hoffer]
  cases answer with
  | accepted count =>
    cases count with
    | zero => rw [← Option.some.inj hrefusal]
    | succ count => cases hrefusal
  | failed message => rw [← Option.some.inj hrefusal]

/-- An offer of which a part is accepted is followed by an offer of the rest. -/
theorem writeFrom_of_accepted {count : Nat} (written : Array UInt8) (hleft : left ≠ [])
    (hoffer : writer.offer now left = (.accepted (count + 1), next)) :
    writer.writeFrom written now left =
      writer.writeFrom (written ++ left.take (count + 1)) next (left.drop (count + 1)) := by
  obtain ⟨byte, bytes, rfl⟩ := List.exists_cons_of_ne_nil hleft
  have htaken : written ++ (byte :: bytes).take (count + 1) =
      written.push byte ++ bytes.take count := by
    apply Array.toList_inj.mp
    simp
  rw [writeFrom, hoffer, htaken, List.drop_succ_cons]

/-! ## What holds at every moment -/

namespace Passes

/-- **What has been accepted and what is left make up the bytes.** -/
theorem append_eq (h : Passes writer state bytes written now left) : written ++ left = bytes := by
  induction h with
  | start => rfl
  | accepted h hleft hoffer ih => rw [List.append_assoc, List.take_append_drop, ih]

/-- Every moment is one of the writing itself, which goes on from there to its end. -/
theorem writeFrom_eq (h : Passes writer state bytes written now left) :
    writer.writeFrom written.toArray now left = writer.writeAll state bytes := by
  induction h with
  | start => rfl
  | @accepted written left now next count h hleft hoffer ih =>
    have htaken : (written ++ left.take (count + 1)).toArray =
        written.toArray ++ left.take (count + 1) := by
      apply Array.toList_inj.mp
      simp
    rw [htaken, ← writeFrom_of_accepted _ hleft hoffer, ih]

/-- From every moment on, the writing settles: what is left gets shorter with each offer that is
not refused. -/
theorem settles_writeFrom {written left : List UInt8} {now : σ}
    (h : Passes writer state bytes written now left) :
    Settles writer state bytes (writer.writeFrom written.toArray now left) := by
  by_cases hleft : left = []
  · subst hleft
    rw [writeFrom_nil]
    exact .complete h
  · obtain ⟨⟨answer, next⟩, hoffer⟩ : ∃ outcome, writer.offer now left = outcome := ⟨_, rfl⟩
    cases hrefusal : answer.refusal? with
    | some reason =>
      rw [writeFrom_of_refusal _ hleft hoffer hrefusal]
      exact .refused h hleft hoffer hrefusal
    | none =>
      obtain ⟨count, rfl⟩ := Answer.exists_accepted_of_refusal?_eq_none hrefusal
      have hlater := h.accepted hleft hoffer
      have hshorter : (left.drop (count + 1)).length < left.length := by
        have := List.length_pos_iff.mpr hleft
        rw [List.length_drop]
        omega
      rw [h.writeFrom_eq, ← hlater.writeFrom_eq]
      exact hlater.settles_writeFrom
termination_by left.length

end Passes

/-- **Every writing settles.** -/
theorem settles_writeAll (writer : Writer σ) (state : σ) (bytes : List UInt8) :
    Settles writer state bytes (writer.writeAll state bytes) :=
  Passes.start.settles_writeFrom

namespace Settles

variable {delivery : Delivery σ}

/-- The writing has not failed exactly when the writer has got all of the bytes. -/
theorem failure_eq_none_iff (h : Settles writer state bytes delivery) :
    delivery.failure = none ↔ delivery.written.toList = bytes := by
  cases h with
  | complete h => simp [← h.append_eq]
  | refused h hleft hoffer hrefusal => simp [← h.append_eq, hleft]

/-- Where the writing has failed, the writer has refused an offer, and the error is its reason,
without a position. -/
theorem failure_eq_some (h : Settles writer state bytes delivery) {error : Error}
    (herror : delivery.failure = some error) : ∃ reason, error = .io reason := by
  cases h with
  | complete h => cases herror
  | @refused _ _ _ _ _ reason h hleft hoffer hrefusal =>
    exact ⟨reason, (Option.some.inj herror).symm⟩

end Settles

/-! ## A writer with limited room -/

/-- What a writer with limited room answers, where it has room. -/
theorem limited_offer {step room : Nat} (reason : Option String) (hstep : 0 < step)
    (hroom : 0 < room) (hleft : left ≠ []) :
    ∃ count, (limited step reason).offer room left =
      (.accepted (count + 1), room - (count + 1)) ∧ count + 1 ≤ room ∧ count + 1 ≤ left.length := by
  have hlength := List.length_pos_iff.mpr hleft
  have hcount : ((left.take step).take room).length ≠ 0 := by
    simp only [List.length_take]
    omega
  obtain ⟨count, htaken⟩ := Nat.exists_eq_succ_of_ne_zero hcount
  refine ⟨count, ?_, ?_⟩
  · simp only [limited, htaken]
    simp
  · simp only [List.length_take] at htaken
    omega

/-- Why a writer with limited room has not got everything. -/
def shortage (reason : Option String) : Error := .io (reason.getD acceptedNothing)

theorem writeFrom_limited {step : Nat} (reason : Option String) (hstep : 0 < step)
    (written : Array UInt8) (room : Nat) (left : List UInt8) :
    (limited step reason).writeFrom written room left =
      ⟨written ++ left.take room, room - left.length,
        if left.length ≤ room then none else some (shortage reason)⟩ := by
  by_cases hleft : left = []
  · subst hleft
    simp [writeFrom_nil]
  by_cases hroom : room = 0
  · subst hroom
    have hoffer : (limited step reason).offer 0 left =
        (reason.elim (.accepted 0) .failed, 0) := rfl
    have hrefusal : (reason.elim (.accepted 0) .failed : Answer).refusal? =
        some (reason.getD acceptedNothing) := by
      cases reason <;> rfl
    rw [writeFrom_of_refusal written hleft hoffer hrefusal]
    simp [hleft, shortage]
  · obtain ⟨count, hoffer, hroom_le, hleft_le⟩ :=
      limited_offer reason hstep (Nat.pos_of_ne_zero hroom) hleft
    have hshorter : (left.drop (count + 1)).length < left.length := by
      rw [List.length_drop]
      omega
    have htaken : written ++ left.take (count + 1) ++
        (left.drop (count + 1)).take (room - (count + 1)) = written ++ left.take room := by
      apply Array.toList_inj.mp
      have htake := @List.take_add _ left (count + 1) (room - (count + 1))
      rw [Nat.add_sub_cancel' hroom_le] at htake
      simp [htake]
    have hroom_after : room - (count + 1) - (left.length - (count + 1)) = room - left.length := by
      omega
    have hfits : left.length - (count + 1) ≤ room - (count + 1) ↔ left.length ≤ room := by omega
    rw [writeFrom_of_accepted written hleft hoffer, writeFrom_limited reason hstep, htaken,
      List.length_drop, hroom_after]
    simp only [hfits]
termination_by left.length

/-! ## The promise -/

/-- What is promised of a delivery of bytes to a writer that is in the state `state` at first. -/
structure Delivers (writer : Writer σ) (state : σ) (bytes : List UInt8)
    (delivery : Delivery σ) : Prop where
  /-- At every moment, what has been accepted is a beginning of the bytes and what is left is
  the rest of them, and the delivery is what the writing comes to from there. -/
  in_order : ∀ {written now left}, Passes writer state bytes written now left →
    written ++ left = bytes ∧ writer.writeFrom written.toArray now left = delivery
  /-- The delivery is over when nothing is left or the writer refuses what is left. -/
  settles : Settles writer state bytes delivery
  /-- It is a success exactly when everything has been accepted. -/
  complete_iff : delivery.failure = none ↔ delivery.written.toList = bytes
  /-- A failure is one of the writer, and points at no position. -/
  io_of_failure : ∀ {error}, delivery.failure = some error →
    (∃ reason, error = .io reason) ∧ error.position? = none
  /-- Where there is nothing to deliver, the writer is not even asked. -/
  of_nil : bytes = [] → delivery = ⟨#[], state, none⟩

theorem delivers_writeAll (writer : Writer σ) (state : σ) (bytes : List UInt8) :
    Delivers writer state bytes (writer.writeAll state bytes) where
  in_order h := ⟨h.append_eq, h.writeFrom_eq⟩
  settles := settles_writeAll writer state bytes
  complete_iff := (settles_writeAll writer state bytes).failure_eq_none_iff
  io_of_failure herror := by
    obtain ⟨reason, rfl⟩ := (settles_writeAll writer state bytes).failure_eq_some herror
    exact ⟨⟨reason, rfl⟩, rfl⟩
  of_nil hbytes := by rw [writeAll, hbytes, writeFrom_nil]

/-- **Any writer gets the canonical text in order, and the result says whether it got all of
it.**  A writer with room for `limit` bytes, which takes at least one byte of an offer while there
is room, gets exactly the first `limit` bytes. -/
theorem writeNode_delivers (node : Node) :
    (∀ {σ : Type} (writer : Writer σ) (state : σ),
      Delivers writer state (Utf8.encode node.canonicalText) (writer.writeNode state node)) ∧
    ∀ (step limit : Nat) (reason : Option String), 0 < step →
      ((limited step reason).writeNode limit node).written.toList =
          (Utf8.encode node.canonicalText).take limit ∧
        ((limited step reason).writeNode limit node).failure =
          if (Utf8.encode node.canonicalText).length ≤ limit then none
          else some (shortage reason) := by
  refine ⟨fun writer state => delivers_writeAll writer state _, ?_⟩
  intro step limit reason hstep
  have hwritten := writeFrom_limited reason hstep #[] limit (Utf8.encode node.canonicalText)
  rw [writeNode, writeAll, hwritten]
  simp

/-- The canonical text of this tree has five bytes; a writer with room for four of them, two at a
time, gets the first three in two offers that split the euro sign, and then the backslash. -/
theorem writeNode_delivers_of_euro :
    ((limited 2 none).writeNode 4 (.text "€\x7b")).written.toList = [0xE2, 0x82, 0xAC, 0x5C] ∧
      ((limited 2 none).writeNode 4 (.text "€\x7b")).failure = some (.io acceptedNothing) := by
  have h := (writeNode_delivers (.text "€\x7b")).2 2 4 none (by decide)
  have hbytes : Utf8.encode (Node.text "€\x7b").canonicalText =
      [0xE2, 0x82, 0xAC, 0x5C, 0x7B] := by
    decide
  rw [hbytes] at h
  exact h

end Writer
end TagTemplate
