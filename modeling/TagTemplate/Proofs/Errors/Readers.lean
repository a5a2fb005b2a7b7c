import TagTemplate.Proofs.Reading.Item

/-!
# The construct that an error points at

An error of a document carries the position of a construct.  `Error.FitsAt` says what has to
stand there for an error of its category: a backslash for a bad escape, a quote for a string
that is left open, an element, the delimiter that opens a tag.

`Error.PointsInto error c` says that the error is one of what is still unread at a cursor:
its position is that of a cursor further on, and there stands what fits it.  Every reader
fails with such an error.  Some may also blame what stands in front of the cursor: the inside
of a string literal its opening quote, and what is in a tag the delimiter that opens it.

* `FreeText.pointsInto_of_scan`, `Quoted.pointsInto_of_scan`, `Numeral.pointsInto_of_read`,
  `Element.pointsInto_of_read`: the readers of a text and of one element.
* `Element.standsIn_of_readAll`: the elements of a tag stand where their positions say.
* `Item.pointsInto_of_next`: the reader of items.
-/

namespace TagTemplate

/-! ## What an error is about -/

/-- Some element starts with the character. -/
def Element.IsInitial (ch : Char) : Prop :=
  ∃ tail element rest, Element.Spelling (ch :: tail) element rest

/-- What stands at the front is a construct that an error of the category is about. -/
def Category.FitsAt : Category → List Char → Prop
  | malformedEscape, cs => ['\\'] <+: cs
  | unterminatedEscape, cs => cs = ['\\']
  | invalidStringEscape, cs => ['\\'] <+: cs
  | unterminatedString, cs => ['"'] <+: cs
  | invalidNumber, cs =>
      ∃ ch tail, cs = ch :: tail ∧
        (ch.isDigit = true ∨ (ch = '-' ∧ ∃ digit ∈ tail.head?, digit.isDigit = true))
  | invalidVariableName, cs =>
      ['_'] <+: cs ∨
        ∃ element rest, Element.Spelling cs element rest ∧ element.isVariable = false
  | invalidFunctionName, cs => ['@'] <+: cs
  | emptyTag, cs => tagOpen <+: cs
  | emptyForTag, cs => tagOpen <+: cs
  | unmatchedEnd, cs => tagOpen <+: cs
  | unclosedForLoop, cs => tagOpen <+: cs
  | unexpectedToken, cs =>
      tagOpen <+: cs ∨ (∃ element rest, Element.Spelling cs element rest) ∨
        (¬ tagClose <+: cs ∧ ∃ ch tail, cs = ch :: tail ∧ ¬ Element.IsInitial ch)

namespace Error

/-- What stands at the front is a construct that the error is about.  Errors that are not
about a document fit nowhere. -/
def FitsAt : Error → List Char → Prop
  | invalidArgument _, _ => False
  | io _, _ => False
  | invalid category _ _, cs => category.FitsAt cs
  | nestingTooDeep _ _, cs => tagOpen <+: cs

/-- The error is about something that is still unread at the cursor. -/
def PointsInto (error : Error) (c : Cursor) : Prop :=
  ∃ u d, Cursor.Reads c u d ∧ error.position? = some d.position ∧ error.FitsAt d.rest

/-- The error is about the tag that is opened at the position. -/
def PointsAtTag (error : Error) (opening : Position) : Prop :=
  error.position? = some opening ∧ ∀ cs, tagOpen <+: cs → error.FitsAt cs

variable {error : Error} {c d : Cursor} {u : List Char}

theorem PointsInto.of_reads (h : Cursor.Reads c u d) (hd : error.PointsInto d) :
    error.PointsInto c := by
  obtain ⟨v, e, hread, hposition, hfits⟩ := hd
  exact ⟨u ++ v, e, h.trans hread, hposition, hfits⟩

/-- There is a construct wherever an error fits. -/
theorem ne_nil_of_fitsAt {cs : List Char} (h : error.FitsAt cs) : cs ≠ [] := by
  rintro rfl
  cases error with
  | invalidArgument message => exact h
  | io message => exact h
  | nestingTooDeep position limit => exact absurd h (by simp [FitsAt, tagOpen])
  | invalid category position message =>
    have hspelled : ∀ element rest, ¬ Element.Spelling [] element rest := by
      intro element rest hspell
      obtain ⟨ch, tail, hcons, -⟩ := hspell.exists_cons
      exact absurd hcons (by simp)
    cases category <;> simp [FitsAt, Category.FitsAt, tagOpen, hspelled] at h

end Error

@[simp] theorem Fault.position?_toError (fault : Fault) (position : Position) :
    (fault.toError position).position? = some position := by
  cases fault <;> rfl

/-- A fault found right at the cursor. -/
theorem Fault.pointsInto {fault : Fault} {c : Cursor}
    (h : (fault.toError c.position).FitsAt c.rest) : (fault.toError c.position).PointsInto c :=
  ⟨[], c, .refl c, fault.position?_toError c.position, h⟩

/-- A fault that is found in a tag and blamed on the tag. -/
theorem Fault.pointsAtTag {fault : Fault} {opening : Position}
    (h : ∀ cs, tagOpen <+: cs → (fault.toError opening).FitsAt cs) :
    (fault.toError opening).PointsAtTag opening :=
  ⟨fault.position?_toError opening, h⟩

/-! ## Texts and strings -/

namespace FreeText

theorem pointsInto_of_scanFrom {taken : String} {p : Position} {cs : List Char} {error : Error}
    {d : Cursor} (h : scanFrom taken p cs = (.error error, d)) : error.PointsInto ⟨cs, p⟩ := by
  fun_induction scanFrom taken p cs with
  | case1 => exact absurd h (by simp)
  | case2 taken p =>
    obtain rfl := Except.error.inj (Prod.mk.inj h).1
    exact Fault.pointsInto (c := ⟨['\\'], p⟩) rfl
  | case3 taken p e rest he ih =>
    exact (ih h).of_reads (Cursor.Reads.cons (Cursor.Reads.cons (.refl _)))
  | case4 taken p e rest he =>
    obtain rfl := Except.error.inj (Prod.mk.inj h).1
    exact Fault.pointsInto (c := ⟨'\\' :: e :: rest, p⟩) ⟨e :: rest, rfl⟩
  | case5 => exact absurd h (by simp)
  | case6 taken p ch rest hslash hopen ih => exact (ih h).of_reads (Cursor.Reads.cons (.refl _))

/-- A text fails at a backslash. -/
theorem pointsInto_of_scan {c d : Cursor} {error : Error} (h : scan c = (.error error, d)) :
    error.PointsInto c :=
  pointsInto_of_scanFrom h

end FreeText

namespace Quoted

/-- The inside of a string literal fails at a backslash, or it blames the opening quote. -/
theorem pointsInto_of_scanFrom {opening p : Position} {taken : String} {cs : List Char}
    {error : Error} {d : Cursor} (h : scanFrom opening taken p cs = (.error error, d)) :
    error.PointsInto ⟨cs, p⟩ ∨
      (error.position? = some opening ∧ ∀ tail, error.FitsAt ('"' :: tail)) := by
  fun_induction scanFrom opening taken p cs with
  | case1 =>
    obtain rfl := Except.error.inj (Prod.mk.inj h).1
    exact .inr ⟨rfl, fun tail => ⟨tail, rfl⟩⟩
  | case2 =>
    obtain rfl := Except.error.inj (Prod.mk.inj h).1
    exact .inr ⟨rfl, fun tail => ⟨tail, rfl⟩⟩
  | case3 => exact absurd h (by simp)
  | case4 =>
    obtain rfl := Except.error.inj (Prod.mk.inj h).1
    exact .inr ⟨rfl, fun tail => ⟨tail, rfl⟩⟩
  | case5 taken p e rest value hvalue _ _ ih =>
    exact (ih h).imp_left (·.of_reads (Cursor.Reads.cons (Cursor.Reads.cons (.refl _))))
  | case6 taken p e rest =>
    obtain rfl := Except.error.inj (Prod.mk.inj h).1
    exact .inl (Fault.pointsInto (c := ⟨'\\' :: e :: rest, p⟩) ⟨e :: rest, rfl⟩)
  | case7 taken p ch rest hclose hquote hslash ih =>
    exact (ih h).imp_left (·.of_reads (Cursor.Reads.cons (.refl _)))

/-- A string literal fails at its opening quote or at a backslash in it. -/
theorem pointsInto_of_scan {c d : Cursor} {error : Error} {tail : List Char}
    (hc : c.rest = '"' :: tail) (h : scan c = (.error error, d)) : error.PointsInto c := by
  rcases pointsInto_of_scanFrom h with hinside | ⟨hposition, hfits⟩
  · exact hinside.of_reads (Element.reads_step hc)
  · exact ⟨[], c, .refl c, hposition, by rw [hc]; exact hfits tail⟩

end Quoted

/-! ## One element -/

namespace Numeral

/-- All faults of a number are of one category. -/
theorem exists_message_of_resolve {n : Numeral} {next : Option Char} {fault : Fault}
    (h : n.resolve next = .error fault) (position : Position) :
    ∃ message, fault.toError position = .invalid .invalidNumber position message := by
  unfold resolve at h
  split at h
  · obtain rfl := Except.error.inj h
    exact ⟨_, rfl⟩
  · split at h
    · rename_i found hfollow
      obtain rfl := Except.error.inj h
      unfold followFault? at hfollow
      split at hfollow
      · exact absurd hfollow (by simp)
      · split at hfollow
        · obtain rfl := Option.some.inj hfollow
          exact ⟨_, rfl⟩
        · split at hfollow
          · obtain rfl := Option.some.inj hfollow
            exact ⟨_, rfl⟩
          · exact absurd hfollow (by simp)
    · split at h
      · exact absurd h (by simp)
      · obtain rfl := Except.error.inj h
        exact ⟨_, rfl⟩

/-- A number fails at its sign or first digit. -/
theorem pointsInto_of_read {c d : Cursor} {ch : Char} {tail : List Char} {error : Error}
    (hc : c.rest = ch :: tail) (hstart : Element.startsNumeral ch c.peekSecond? = true)
    (h : read c = (.error error, d)) : error.PointsInto c := by
  have hresult : Except.mapError (Fault.toError · c.position)
      ((readParts c).1.resolve (readParts c).2.peek?) = .error error := (Prod.mk.inj h).1
  cases hresolve : (readParts c).1.resolve (readParts c).2.peek? with
  | ok element =>
    rw [hresolve] at hresult
    exact absurd hresult (by simp [Except.mapError])
  | error fault =>
    rw [hresolve] at hresult
    obtain rfl : fault.toError c.position = error := Except.error.inj hresult
    obtain ⟨message, hmessage⟩ := exists_message_of_resolve hresolve c.position
    refine Fault.pointsInto ?_
    rw [hmessage, hc]
    refine ⟨ch, tail, rfl, ?_⟩
    have hsecond : c.peekSecond? = tail.head? := by
      rw [Cursor.peekSecond?, hc, List.tail_cons]
    rw [Element.startsNumeral, Bool.or_eq_true, Bool.and_eq_true, beq_iff_eq, hsecond,
      Option.any_eq_true] at hstart
    exact hstart

end Numeral

namespace Element

variable {c d : Cursor} {ch : Char} {tail : List Char} {error : Error}

/-- The characters with which an element may start. -/
theorem IsInitial.cases (h : IsInitial ch) : ch = '"' ∨ ch = '@' ∨
    Character.isAlphabetic ch = true ∨ ch.isDigit = true ∨ ch ∈ operatorSymbols := by
  obtain ⟨tail, element, rest, h⟩ := h
  generalize hinput : ch :: tail = input at h
  cases h with
  | var hw hrest =>
    obtain ⟨first, more, rfl, halpha, -⟩ := exists_cons_of_isIdentifier hw
    obtain rfl : ch = first := (List.cons.inj hinput).1
    exact .inr (.inr (.inl halpha))
  | function hw hrest => exact .inr (.inl (List.cons.inj hinput).1)
  | number hn hword hpoint hvalue =>
    obtain ⟨first, more, heq, hfirst⟩ := hn.exists_cons_text
    rw [heq] at hinput
    obtain rfl : ch = first := (List.cons.inj hinput).1
    rcases hfirst with hdigit | rfl
    · exact .inr (.inr (.inr (.inl hdigit)))
    · exact .inr (.inr (.inr (.inr (by decide))))
  | string h => exact .inl (List.cons.inj hinput).1
  | operator hc hminus =>
    obtain rfl := (List.cons.inj hinput).1
    exact .inr (.inr (.inr (.inr hc)))

theorem pointsInto_of_readString (hc : c.rest = '"' :: tail)
    (h : readString c = (.error error, d)) : error.PointsInto c := by
  have hscan : (Quoted.scan c).1 = .error error := map_eq_error_iff.mp (Prod.mk.inj h).1
  exact Quoted.pointsInto_of_scan hc (Prod.ext hscan rfl)

theorem pointsInto_of_readFunction (hc : c.rest = '@' :: tail)
    (h : readFunction c = (.error error, d)) : error.PointsInto c := by
  obtain ⟨hresult, -⟩ := Prod.mk.inj h
  split at hresult
  · exact absurd hresult (by simp)
  · obtain rfl := Except.error.inj hresult
    refine Fault.pointsInto ?_
    rw [hc]
    exact ⟨tail, rfl⟩

/-- A word that is no variable starts with an underscore. -/
theorem pointsInto_of_readVariable (hc : c.rest = '_' :: tail)
    (h : readVariable c = (.error error, d)) : error.PointsInto c := by
  obtain ⟨hresult, -⟩ := Prod.mk.inj h
  split at hresult
  · exact absurd hresult (by simp)
  · obtain rfl := Except.error.inj hresult
    refine Fault.pointsInto ?_
    rw [hc]
    exact .inl ⟨tail, rfl⟩

/-- **An element fails at its first character**, or a string inside at a backslash. -/
theorem pointsInto_of_read (hc : c.rest = ch :: tail) (hclose : ¬ tagClose <+: c.rest)
    (h : read ch c = (.error error, d)) : error.PointsInto c := by
  cases halpha : Character.isAlphabetic ch with
  | true =>
    rw [read_of_isAlphabetic hc halpha] at h
    exact absurd h (by simp)
  | false =>
    unfold read at h
    split at h
    · rename_i hquote
      rw [hquote] at hc
      exact pointsInto_of_readString hc h
    rename_i hquote
    split at h
    · rename_i hat
      rw [hat] at hc
      exact pointsInto_of_readFunction hc h
    rename_i hat
    split at h
    · rename_i hscore
      rw [halpha, Bool.false_or, beq_iff_eq] at hscore
      rw [hscore] at hc
      exact pointsInto_of_readVariable hc h
    split at h
    · rename_i hstart
      exact Numeral.pointsInto_of_read hc hstart h
    rename_i hstart
    split at h
    · exact absurd h (by simp)
    rename_i hoperator
    -- what is left starts no element, and a dollar sign here closes no tag
    have hinitial : ¬ IsInitial ch := by
      intro hinitial
      have hdigit : ch.isDigit = false := by
        cases hd : ch.isDigit with
        | false => rfl
        | true => exact absurd hstart (by simp [startsNumeral, hd])
      rcases hinitial.cases with hch | hch | hch | hch | hch
      · exact hquote hch
      · exact hat hch
      · rw [halpha] at hch
        exact absurd hch (by simp)
      · rw [hdigit] at hch
        exact absurd hch (by simp)
      · exact hoperator hch
    have hfits : Category.FitsAt .unexpectedToken c.rest :=
      .inr (.inr ⟨hclose, ch, tail, hc, hinitial⟩)
    split at h
    · obtain rfl := Except.error.inj (Prod.mk.inj h).1
      exact Fault.pointsInto hfits
    · obtain rfl := Except.error.inj (Prod.mk.inj h).1
      exact Fault.pointsInto hfits

/-! ## The elements of a tag -/

/-- The element stands where its position says, in what is unread at the cursor. -/
def StandsIn (c : Cursor) (element : Located Element) : Prop :=
  ∃ u d rest, Cursor.Reads c u d ∧ element.position = d.position ∧
    Spelling d.rest element.value rest

theorem StandsIn.of_reads {u : List Char} {element : Located Element} (h : Cursor.Reads c u d)
    (hd : StandsIn d element) : StandsIn c element := by
  obtain ⟨v, e, rest, hread, hposition, hspell⟩ := hd
  exact ⟨u ++ v, e, rest, h.trans hread, hposition, hspell⟩

/-- A fault that is found in an element of a tag and blamed on the element. -/
theorem StandsIn.pointsInto {fault : Fault} {element : Located Element} (h : StandsIn c element)
    (hfits : ∀ cs rest, Spelling cs element.value rest →
      (fault.toError element.position).FitsAt cs) :
    (fault.toError element.position).PointsInto c := by
  obtain ⟨u, d, rest, hread, hposition, hspell⟩ := h
  exact ⟨u, d, hread, by rw [Fault.position?_toError, hposition], hfits _ _ hspell⟩

/-- The elements of a tag stand where their positions say. -/
theorem standsIn_of_readAll {opening : Position} {elements : List (Located Element)}
    (h : readAll opening c = .ok (elements, d)) : ∀ element ∈ elements, StandsIn c element := by
  fun_induction readAll opening c generalizing elements d with
  | case1 =>
    obtain ⟨rfl, -⟩ := Prod.mk.inj (Except.ok.inj h)
    simp
  | case2 => exact absurd h (by simp)
  | case3 => exact absurd h (by simp)
  | case4 c _ ch tail hc element e hread _ ih =>
    obtain ⟨⟨more, f⟩, hmore, heq⟩ := map_eq_ok_iff.mp h
    obtain ⟨rfl, rfl⟩ := Prod.mk.inj heq
    have hblanks := Cursor.reads_skipWhiteSpace c
    obtain ⟨u, -, hu⟩ := exists_reads_of_read hc hread
    intro x hx
    rcases List.mem_cons.mp hx with rfl | hx
    · exact ⟨_, c.skipWhiteSpace, e.rest, hblanks, rfl, spelling_of_read hc hread⟩
    · exact (ih hmore x hx).of_reads (hblanks.trans hu)

/-- The elements of a tag fail at one of them, or where the document ends before the tag. -/
theorem pointsInto_of_readAll {opening : Position} (h : readAll opening c = .error error) :
    error.PointsInto c ∨ error.PointsAtTag opening := by
  fun_induction readAll opening c with
  | case1 => exact absurd h (by simp)
  | case2 c hclose hc =>
    obtain rfl := Except.error.inj h
    exact .inr (Fault.pointsAtTag fun cs hcs => .inl hcs)
  | case3 c hclose ch tail hc cause e hread =>
    obtain rfl := Except.error.inj h
    exact .inl ((pointsInto_of_read hc (Cursor.eat?_eq_none_iff.mp hclose) hread).of_reads
      (Cursor.reads_skipWhiteSpace c))
  | case4 c hclose ch tail hc element e hread _ ih =>
    obtain ⟨u, -, hu⟩ := exists_reads_of_read hc hread
    exact (ih (map_eq_error_iff.mp h)).imp_left
      (·.of_reads ((Cursor.reads_skipWhiteSpace c).trans hu))

end Element

/-! ## Items -/

variable {c d : Cursor} {opening : Position} {error : Error}

/-- The elements of a `FOR` tag fail at one of them, or the whole tag does. -/
theorem LoopHeader.pointsInto_of_ofElements {elements : List (Located Element)}
    (hstands : ∀ element ∈ elements, Element.StandsIn c element)
    (h : ofElements opening elements = .error error) :
    error.PointsInto c ∨ error.PointsAtTag opening := by
  unfold ofElements at h
  split at h
  · obtain rfl := Except.error.inj h
    exact .inr (Fault.pointsAtTag fun cs hcs => hcs)
  · rename_i first operands
    split at h
    · split at h
      · rename_i operand hfind
        obtain rfl := Except.error.inj h
        have hmem := List.mem_of_find?_eq_some hfind
        exact .inl ((hstands operand (List.mem_cons_of_mem _ hmem)).pointsInto
          fun cs rest hspell => .inr (.inl ⟨_, rest, hspell⟩))
      · split at h
        · exact absurd h (by simp)
        · exact absurd h (by simp)
        · obtain rfl := Except.error.inj h
          exact .inr (Fault.pointsAtTag fun cs hcs => .inl hcs)
    · rename_i hvariable
      obtain rfl := Except.error.inj h
      exact .inl ((hstands first List.mem_cons_self).pointsInto
        fun cs rest hspell => .inr ⟨_, rest, hspell, by simpa using hvariable⟩)

namespace Item

theorem pointsInto_of_ofTag {keyword : Keyword} {elements : List (Located Element)}
    (hstands : ∀ element ∈ elements, Element.StandsIn c element)
    (h : ofTag opening keyword elements = .error error) :
    error.PointsInto c ∨ error.PointsAtTag opening := by
  cases keyword with
  | echo => exact absurd h (by simp [ofTag])
  | openLoop => exact LoopHeader.pointsInto_of_ofElements hstands (map_eq_error_iff.mp h)
  | closeLoop =>
    cases elements with
    | nil => exact absurd h (by simp [ofTag])
    | cons element elements =>
      obtain rfl := Except.error.inj h
      exact .inl ((hstands element List.mem_cons_self).pointsInto
        fun cs rest hspell => .inr (.inl ⟨_, rest, hspell⟩))

/-- A tag without a keyword fails as a whole, or at the element that stands there instead. -/
theorem pointsInto_keywordError (opening : Position) (c : Cursor) :
    (keywordError opening c).PointsInto c ∨ (keywordError opening c).PointsAtTag opening := by
  unfold keywordError
  split
  · exact .inr (Fault.pointsAtTag fun cs hcs => hcs)
  · rename_i hclose
    split
    · exact .inr (Fault.pointsAtTag fun cs hcs => .inl hcs)
    · rename_i ch hpeek
      obtain ⟨tail, hc⟩ := List.head?_eq_some_iff.mp hpeek
      rcases hread : Element.read ch c with ⟨cause | element, d⟩
      · exact .inl (Element.pointsInto_of_read hc (Cursor.eat?_eq_none_iff.mp hclose) hread)
      · have hspell := Element.spelling_of_read hc hread
        exact .inl (Fault.pointsInto (.inr (.inl ⟨element, d.rest, hspell⟩)))

/-- A tag fails as a whole, or at something in it. -/
theorem pointsInto_of_readTag (h : readTag opening c = .error error) :
    error.PointsInto c ∨ error.PointsAtTag opening := by
  have hblanks := Cursor.reads_skipWhiteSpace c
  unfold readTag at h
  split at h
  · obtain rfl := Except.error.inj h
    exact (pointsInto_keywordError opening c.skipWhiteSpace).imp_left (·.of_reads hblanks)
  · rename_i keyword d hkeyword
    obtain ⟨u, hu⟩ := exists_reads_readKeyword? hkeyword
    split at h
    · rename_i cause hall
      obtain rfl := Except.error.inj h
      exact (Element.pointsInto_of_readAll hall).imp_left (·.of_reads (hblanks.trans hu))
    · rename_i elements rest hall
      have hstands := Element.standsIn_of_readAll hall
      exact (pointsInto_of_ofTag hstands (map_eq_error_iff.mp h)).imp_left
        (·.of_reads (hblanks.trans hu))

/-- **An item fails at its first character or at something in it.** -/
theorem pointsInto_of_next (h : next c = .error error) : error.PointsInto c := by
  unfold next at h
  split at h
  · rename_i d hopen
    have hreads := Cursor.reads_of_eat? hopen
    rcases pointsInto_of_readTag (map_eq_error_iff.mp h) with hinside | ⟨hposition, hfits⟩
    · exact hinside.of_reads hreads
    · exact ⟨[], c, .refl c, hposition, hfits _ ⟨d.rest, hreads.rest_eq.symm⟩⟩
  · split at h
    · exact absurd h (by simp)
    · split at h
      · rename_i cause d hscan
        obtain rfl := Except.error.inj h
        exact FreeText.pointsInto_of_scan hscan
      · exact absurd h (by simp)

end Item
end TagTemplate
