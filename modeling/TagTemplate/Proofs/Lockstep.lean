import TagTemplate.Proofs.Calls
import TagTemplate.Proofs.Errors.Misplaced

/-!
# The lexer and the tree in lockstep

The lexer has a mode and the tree under construction has a place, and neither looks at the
other.  `Assembly.accept` therefore has an answer for every token at every place, and where no
rule of the language applies it answers that the token is misplaced.  No document ever gets that
answer: before every call the lexer is in the mode of the place (`Place.mode`), and in that mode
it returns only tokens that mean something there (`Place.expects`).

`Assembly.Reached document limit n a` says that `n` calls of the reading have led to the tree
`a`, and that one more is made from there.

* `Lexer.Turn.expects`: what a call returns in the mode of a place is expected there.
* `Lexer.Turn.mode_of_accept`: a token that is accepted leads to a place with the mode that the
  call has left the lexer in.
* `Assembly.Reached.mode_eq`: so the two agree before every call of a reading.
* `Assembly.not_isMisplaced_of_accept`: an expected token is refused for another reason, if it
  is refused at all.
* `reading_inLockstep`: no token of a document is misplaced, and no document is refused for it.
-/

namespace TagTemplate

namespace Place

/-- The mode in which the lexer has to read at a place. -/
def mode : Place → Mode
  | body => .text
  | tagStart _ => .tagStart
  | tag _ _ _ => .tag

/-- Whether a token means something at a place, be it that the document is refused for it. -/
def expects : Place → Token → Bool
  | body, .text _ => true
  | body, .tagOpen => true
  | body, .endOfInput => true
  | tagStart _, .keyword _ => true
  | tagStart _, .tagClose => true
  | tagStart _, .element _ => true
  | tagStart _, .endOfInput => true
  | tag _ _ _, .element _ => true
  | tag _ _ _, .tagClose => true
  | tag _ _ _, .endOfInput => true
  | _, _ => false

end Place

/-! ## One token -/

namespace Assembly

variable {limit : Nat} {a b : Assembly} {token : Located Token} {error : Error}

/-- **An expected token is not refused as misplaced.** -/
theorem not_isMisplaced_of_accept (hexpects : a.place.expects token.value = true)
    (h : a.accept limit token = .error error) : ¬ error.IsMisplaced := by
  unfold accept at h
  cases hplace : a.place with
  | body =>
    rw [hplace] at h hexpects
    cases htoken : token.value with
    | text content => exact absurd h (by simp [htoken])
    | tagOpen => exact absurd h (by simp [htoken])
    | endOfInput =>
      simp only [htoken, map_eq_error_iff] at h
      unfold finish at h
      split at h
      · exact absurd h (by simp)
      · exact Fault.not_isMisplaced h (by simp)
    | _ => simp [htoken, Place.expects] at hexpects
  | tagStart opening =>
    rw [hplace] at h hexpects
    cases htoken : token.value with
    | keyword keyword => exact absurd h (by simp [htoken])
    | tagClose | element element | endOfInput =>
      simp only [htoken] at h
      exact Fault.not_isMisplaced h (by simp)
    | _ => simp [htoken, Place.expects] at hexpects
  | tag opening keyword elements =>
    rw [hplace] at h hexpects
    cases htoken : token.value with
    | element element => exact absurd h (by simp [htoken])
    | tagClose =>
      simp only [htoken, map_eq_error_iff] at h
      exact not_isMisplaced_of_addTag h
    | endOfInput =>
      simp only [htoken] at h
      exact Fault.not_isMisplaced h (by simp)
    | _ => simp [htoken, Place.expects] at hexpects

theorem place_of_addTag {opening : Position} {keyword : Keyword}
    {elements : List (Located Element)} (h : a.addTag limit opening keyword elements = .ok b) :
    b.place = .body := by
  rw [addTag_eq] at h
  split at h
  · exact absurd h (by simp)
  · exact place_of_addItem h

/-- A token leads from one place to another in five ways. -/
theorem places_of_accept (h : a.accept limit token = .ok (.unfinished b)) :
    (∃ content, token.value = .text content ∧ a.place = .body ∧ b.place = .body) ∨
    (token.value = .tagOpen ∧ a.place = .body ∧ b.place = .tagStart token.position) ∨
    (∃ keyword opening, token.value = .keyword keyword ∧ a.place = .tagStart opening ∧
      b.place = .tag opening keyword []) ∨
    (∃ element opening keyword elements, token.value = .element element ∧
      a.place = .tag opening keyword elements ∧
      b.place = .tag opening keyword (⟨element, token.position⟩ :: elements)) ∨
    (∃ opening keyword elements, token.value = .tagClose ∧
      a.place = .tag opening keyword elements ∧ b.place = .body) := by
  unfold accept at h
  cases hplace : a.place with
  | body =>
    rw [hplace] at h
    cases htoken : token.value with
    | text content =>
      simp only [htoken, Except.ok.injEq, Progress.unfinished.injEq] at h
      obtain rfl := h
      exact .inl ⟨content, rfl, rfl, rfl⟩
    | tagOpen =>
      simp only [htoken, Except.ok.injEq, Progress.unfinished.injEq] at h
      obtain rfl := h
      exact .inr (.inl ⟨rfl, rfl, rfl⟩)
    | endOfInput =>
      simp only [htoken, map_eq_ok_iff] at h
      obtain ⟨tree, -, htree⟩ := h
      exact absurd htree (by simp)
    | _ => exact absurd h (by simp [htoken, misplaced])
  | tagStart opening =>
    rw [hplace] at h
    cases htoken : token.value with
    | keyword keyword =>
      simp only [htoken, Except.ok.injEq, Progress.unfinished.injEq] at h
      obtain rfl := h
      exact .inr (.inr (.inl ⟨keyword, opening, rfl, rfl, rfl⟩))
    | _ => exact absurd h (by simp [htoken, misplaced])
  | tag opening keyword elements =>
    rw [hplace] at h
    cases htoken : token.value with
    | element element =>
      simp only [htoken, Except.ok.injEq, Progress.unfinished.injEq] at h
      obtain rfl := h
      exact .inr (.inr (.inr (.inl ⟨element, opening, keyword, elements, rfl, rfl, rfl⟩)))
    | tagClose =>
      simp only [htoken, map_eq_ok_iff] at h
      obtain ⟨c, hadd, hc⟩ := h
      obtain rfl : c = b := by simpa using hc
      have hbody := place_of_addTag hadd
      exact .inr (.inr (.inr (.inr ⟨opening, keyword, elements, rfl, rfl, hbody⟩)))
    | _ => exact absurd h (by simp [htoken, misplaced])

end Assembly

/-! ## One call -/

namespace Lexer
namespace Turn

variable {limit : Nat} {lexer : Lexer} {r : TokenReading} {a b : Assembly} {token : Located Token}

/-- What a call returns in the mode of a place is expected there. -/
theorem expects (h : Turn lexer r) {place : Place} (hmode : lexer.mode = place.mode)
    (hr : r.1 = .ok token) : place.expects token.value = true := by
  cases h with
  | textError | tagError => exact absurd hr (by simp)
  | opens | text | endInText | keyword | element | closes | endInTag =>
    obtain rfl := Except.ok.inj hr
    cases place <;> simp_all [Place.mode, Place.expects]

/-- A token that is accepted leads to a place with the mode that the call has left the lexer
in. -/
theorem mode_of_accept (h : Turn lexer r) (hr : r.1 = .ok token)
    (haccept : a.accept limit token = .ok (.unfinished b)) : r.2.mode = b.place.mode := by
  have hanswer : answer r = .ok token.value := by rw [answer, hr, Except.map]
  rcases Assembly.places_of_accept haccept with ⟨content, htoken, -, hb⟩ | ⟨htoken, -, hb⟩ |
    ⟨keyword, opening, htoken, -, hb⟩ | ⟨element, opening, keyword, elements, htoken, -, hb⟩ |
    ⟨opening, keyword, elements, htoken, -, hb⟩ <;>
  rw [hb, Place.mode] <;>
  cases h <;> simp_all [answer, Except.map]

end Turn
end Lexer

/-! ## A whole reading -/

namespace Assembly

variable {document : String} {limit m n : Nat} {a b : Assembly} {token : Located Token}
  {error : Error}

/-- So many calls of the reading of the document under the limit have led to the tree under
construction, and one more is made from there. -/
inductive Reached (document : String) (limit : Nat) : Nat → Assembly → Prop where
  | start : Reached document limit 0 .empty
  | step {n : Nat} {a b : Assembly} (h : Reached document limit n a)
      (hstep : a.step limit (Lexer.after document n) =
        .ok (.unfinished b, Lexer.after document (n + 1))) : Reached document limit (n + 1) b

namespace Reached

/-- **Before every call of a reading the lexer is in the mode of the place.** -/
theorem mode_eq (h : Reached document limit n a) :
    (Lexer.after document n).mode = a.place.mode := by
  cases h with
  | start => rfl
  | @step n a b h hstep =>
    obtain ⟨token, hnext, haccept⟩ := exists_token_of_step hstep
    exact (Lexer.turn_after document n).mode_of_accept (congrArg Prod.fst hnext) haccept

/-- Every token of a reading is expected where it comes. -/
theorem expects (h : Reached document limit n a)
    (hnext : (Lexer.after document n).next.1 = .ok token) :
    a.place.expects token.value = true :=
  (Lexer.turn_after document n).expects h.mode_eq hnext

/-- The number of calls determines the tree. -/
theorem unique (h : Reached document limit n a) (k : Reached document limit n b) : a = b := by
  induction h generalizing b with
  | start =>
    cases k
    rfl
  | step h hstep ih =>
    cases k with
    | step k kstep =>
      obtain rfl := ih k
      rw [hstep] at kstep
      simpa using kstep

/-- A reading gets nowhere without its earlier calls. -/
theorem exists_of_le (h : Reached document limit n a) (hle : m ≤ n) :
    ∃ b, Reached document limit m b := by
  induction h with
  | start =>
    obtain rfl := Nat.le_zero.mp hle
    exact ⟨_, .start⟩
  | @step n a b h hstep ih =>
    rcases Nat.lt_or_eq_of_le hle with hlt | rfl
    · exact ih (Nat.le_of_lt_succ hlt)
    · exact ⟨b, h.step hstep⟩

/-- Where a reading goes on, its next step leaves the tree unfinished. -/
theorem exists_step (h : Reached document limit n a)
    (hmore : ∃ b, Reached document limit (n + 1) b) :
    ∃ b rest, a.step limit (Lexer.after document n) = .ok (.unfinished b, rest) := by
  obtain ⟨b, hb⟩ := hmore
  cases hb with
  | step k kstep =>
    obtain rfl := h.unique k
    exact ⟨_, _, kstep⟩

/-- After the last call there is no other. -/
theorem exists_iff_of_last (h : Reached document limit n a)
    (hlast : ∀ b rest, a.step limit (Lexer.after document n) ≠ .ok (.unfinished b, rest))
    (hle : n ≤ m) : (∃ b, Reached document limit m b) ↔ m < n + 1 := by
  constructor
  · rintro ⟨b, hb⟩
    by_contra hlt
    obtain ⟨c, rest, hstep⟩ := h.exists_step (hb.exists_of_le (Nat.not_lt.mp hlt))
    exact hlast c rest hstep
  · intro hlt
    obtain rfl : n = m := by omega
    exact ⟨a, h⟩

end Reached

/-- The calls that a reading still makes are the next ones, and there are no others. -/
theorem Ends.exists_reached_iff {calls : Nat} {last : Lexer} {result : Except Error Node}
    (h : Ends limit (Lexer.after document n) a calls last result)
    (hreached : Reached document limit n a) (hle : n ≤ m) :
    (∃ b, Reached document limit m b) ↔ m < n + calls := by
  generalize hlexer : Lexer.after document n = lexer at h
  induction h generalizing n with
  | error h =>
    refine hreached.exists_iff_of_last (fun b rest hstep => ?_) hle
    rw [hlexer, h] at hstep
    exact absurd hstep (by simp)
  | finished h =>
    refine hreached.exists_iff_of_last (fun b rest hstep => ?_) hle
    rw [hlexer, h] at hstep
    exact absurd hstep (by simp)
  | @unfinished lexer rest last a b calls result h hmore ih =>
    obtain rfl : lexer.next.2 = rest := (step_eq_ok_iff.mp h).2
    rw [← hlexer] at h
    have hnext : Reached document limit (n + 1) b := hreached.step h
    rcases Nat.eq_or_lt_of_le hle with rfl | hlt
    · exact iff_of_true ⟨a, hreached⟩ (by omega)
    · rw [ih hnext hlt (congrArg (·.next.2) hlexer), Nat.add_right_comm, Nat.add_assoc]

/-- No reading ends with the error of a misplaced token. -/
theorem Ends.not_isMisplaced {calls : Nat} {last : Lexer} {result : Except Error Node}
    (h : Ends limit (Lexer.after document n) a calls last result)
    (hreached : Reached document limit n a) (herror : result = .error error) :
    ¬ error.IsMisplaced := by
  generalize hlexer : Lexer.after document n = lexer at h
  induction h generalizing n with
  | @error lexer a cause h =>
    obtain rfl : cause = error := Except.error.inj herror
    subst hlexer
    rw [step_eq_error_iff] at h
    cases hnext : (Lexer.after document n).next.1 with
    | error cause =>
      rw [hnext] at h
      obtain rfl := Except.error.inj h
      exact Lexer.not_isMisplaced_of_next hnext
    | ok token =>
      rw [hnext] at h
      exact not_isMisplaced_of_accept (hreached.expects hnext) h
  | finished h => exact absurd herror (by simp)
  | @unfinished lexer rest last a b calls result h hmore ih =>
    obtain rfl : lexer.next.2 = rest := (step_eq_ok_iff.mp h).2
    rw [← hlexer] at h
    exact ih (hreached.step h) herror (congrArg (·.next.2) hlexer)

end Assembly

/-- **The lexer and the tree under construction stay in step.**  Before every call of a reading
the lexer is in the mode of the place where the next token stands, and the token that the call
returns means something there.  So no token is ever misplaced, and no document is refused with
the error of a misplaced token. -/
theorem reading_inLockstep (document : String) (limit : Nat) :
    (∃ calls last, Assembly.Ends limit (.ofString document) .empty calls last
        (parse document ⟨limit⟩) ∧
      ∀ n, (∃ a, Assembly.Reached document limit n a) ↔ n < calls) ∧
    (∀ n a, Assembly.Reached document limit n a →
      (Lexer.after document n).mode = a.place.mode ∧
      ∀ token, (Lexer.after document n).next.1 = .ok token →
        a.place.expects token.value = true ∧
        ∀ place, a.accept limit token ≠ Assembly.misplaced token place) ∧
    ∀ token place position, parse document ⟨limit⟩ ≠
      .error ((Fault.misplacedToken (Token.description token) place).toError position) := by
  obtain ⟨calls, last, hends, -⟩ := exists_ends_parse document limit
  refine ⟨⟨calls, last, hends, fun n => ?_⟩, fun n a h => ⟨h.mode_eq, fun token hnext => ?_⟩, ?_⟩
  · have hiff := hends.exists_reached_iff .start (Nat.zero_le n)
    rwa [Nat.zero_add] at hiff
  · have hexpects := h.expects hnext
    exact ⟨hexpects, fun place hmisplaced =>
      Assembly.not_isMisplaced_of_accept hexpects hmisplaced ⟨token.value, place, _, rfl⟩⟩
  · intro token place position herror
    exact hends.not_isMisplaced .start herror ⟨token, place, position, rfl⟩

end TagTemplate
