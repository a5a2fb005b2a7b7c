import TagTemplate.Proofs.Utf8

/-!
# Parts of a text by their bytes

An offset into the bytes of a text may be inside of a character, and there is no text from such
an offset on.  Whether it is can be seen from the byte that stands there, since the first byte
of a character is never one that continues a character (`Utf8.exists_head_utf8EncodeChar`) and
all of its further bytes are such (`Utf8.isTail_of_mem_tail`).  So the offsets at which a text can
be cut are the numbers of bytes of its beginnings: `Utf8.isBoundary_flatMap_iff`.

Between two offsets stands a text exactly if they are where this text starts and where it stops:
`Utf8.slice?_eq_some_iff`.
-/

namespace TagTemplate
namespace Utf8

/-- The number of bytes of characters. -/
def width (cs : List Char) : Nat := (cs.flatMap String.utf8EncodeChar).length

instance (byte : UInt8) : Decidable (IsTail byte) :=
  inferInstanceAs (Decidable (_ ∧ _))

/-- An offset at the end of bytes, or at a byte that does not continue a character. -/
def IsBoundary (bytes : List UInt8) (offset : Nat) : Prop :=
  offset ≤ bytes.length ∧ ∀ byte ∈ bytes[offset]?, ¬ IsTail byte

instance (bytes : List UInt8) (offset : Nat) : Decidable (IsBoundary bytes offset) :=
  inferInstanceAs (Decidable (_ ∧ _))

/-- The part of a text between two offsets into its bytes.  There is none if one of them is
inside of a character or beyond the end, or if the first one is the greater one. -/
def slice? (text : String) (start stop : Nat) : Option String :=
  if start ≤ stop ∧ IsBoundary (encode text) start ∧ IsBoundary (encode text) stop then
    (decode (((encode text).take stop).drop start)).toOption
  else none

variable {c : Char} {cs before after : List Char} {text part : String} {start stop offset : Nat}

/-! ## Numbers of bytes -/

@[simp] theorem width_nil : width [] = 0 := rfl

@[simp] theorem width_append (as bs : List Char) : width (as ++ bs) = width as + width bs := by
  simp [width]

theorem width_singleton (c : Char) : width [c] = c.utf8Size := by
  simp [width]

theorem width_cons (c : Char) (cs : List Char) : width (c :: cs) = c.utf8Size + width cs := by
  simp [width]

theorem length_encode (text : String) : (encode text).length = width text.toList := rfl

/-! ## Boundaries -/

/-- All bytes of a character but the first one continue it. -/
theorem isTail_of_mem_tail {byte : UInt8} (h : byte ∈ (String.utf8EncodeChar c).tail) :
    IsTail byte := by
  have htail : ∀ code : Nat, IsTail (UInt8.ofNat (code % 64 + 128)) := fun code => by
    rw [IsTail, UInt8.toNat_ofNat', Nat.mod_eq_of_lt (by omega)]
    omega
  simp only [String.utf8EncodeChar] at h
  split at h
  · cases h
  split at h
  · obtain rfl := List.mem_singleton.mp h
    exact htail _
  split at h
  · simp only [List.tail_cons, List.mem_cons, List.not_mem_nil, or_false] at h
    rcases h with rfl | rfl <;> exact htail _
  · simp only [List.tail_cons, List.mem_cons, List.not_mem_nil, or_false] at h
    rcases h with rfl | rfl | rfl <;> exact htail _

/-- The first byte of a character continues none. -/
theorem exists_head_utf8EncodeChar (c : Char) :
    ∃ byte bytes, String.utf8EncodeChar c = byte :: bytes ∧ ¬ IsTail byte := by
  by_cases h : 0x80 ≤ c.toNat
  · obtain ⟨byte, u, bytes, heq, -, hlead, -⟩ := exists_completes_of_utf8EncodeChar h
    refine ⟨byte, bytes, heq, ?_⟩
    have hrange := lead?_range hlead
    unfold IsTail
    omega
  · obtain ⟨byte, heq, hbyte⟩ := exists_byte_of_ascii (Nat.lt_of_not_le h)
    refine ⟨byte, [], heq, ?_⟩
    unfold IsTail
    omega

/-- Where a text starts is a boundary. -/
theorem isBoundary_zero (cs : List Char) : IsBoundary (cs.flatMap String.utf8EncodeChar) 0 := by
  cases cs with
  | nil => exact ⟨Nat.le_refl _, by simp⟩
  | cons c cs =>
    obtain ⟨byte, bytes, heq, hbyte⟩ := exists_head_utf8EncodeChar c
    rw [List.flatMap_cons, heq]
    exact ⟨Nat.zero_le _, by simpa using hbyte⟩

theorem isBoundary_length_add (front bytes : List UInt8) (offset : Nat) :
    IsBoundary (front ++ bytes) (front.length + offset) ↔ IsBoundary bytes offset := by
  rw [IsBoundary, IsBoundary, List.length_append, List.getElem?_append_right (Nat.le_add_right ..)]
  simp

/-- No boundary is inside of a character. -/
theorem not_isBoundary_of_lt (bytes : List UInt8) (hpos : 0 < offset) (hlt : offset < c.utf8Size) :
    ¬ IsBoundary (String.utf8EncodeChar c ++ bytes) offset := by
  rintro ⟨-, hboundary⟩
  obtain ⟨offset, rfl⟩ := Nat.exists_eq_succ_of_ne_zero (Nat.ne_of_gt hpos)
  have hlength : offset + 1 < (String.utf8EncodeChar c).length := by simpa using hlt
  obtain ⟨byte, hbyte⟩ : ∃ byte, (String.utf8EncodeChar c)[offset + 1]? = some byte :=
    ⟨_, List.getElem?_eq_getElem hlength⟩
  rw [List.getElem?_append_left hlength] at hboundary
  have htail : (String.utf8EncodeChar c).tail[offset]? = some byte := by
    rw [List.getElem?_tail, hbyte]
  exact hboundary byte hbyte (isTail_of_mem_tail (List.mem_of_getElem? htail))

/-- **A text can be cut where a beginning of it ends, and nowhere else.** -/
theorem isBoundary_flatMap_iff :
    IsBoundary (cs.flatMap String.utf8EncodeChar) offset ↔
      ∃ before after, cs = before ++ after ∧ offset = width before := by
  induction cs generalizing offset with
  | nil =>
    constructor
    · rintro ⟨hle, -⟩
      exact ⟨[], [], rfl, Nat.le_zero.mp hle⟩
    · rintro ⟨before, after, heq, rfl⟩
      obtain ⟨rfl, -⟩ := List.append_eq_nil_iff.mp heq.symm
      exact isBoundary_zero []
  | cons c cs ih =>
    rw [List.flatMap_cons]
    constructor
    · intro h
      by_cases hzero : offset = 0
      · exact ⟨[], c :: cs, rfl, hzero⟩
      have hle : c.utf8Size ≤ offset := Nat.le_of_not_lt fun hlt =>
        not_isBoundary_of_lt _ (Nat.pos_of_ne_zero hzero) hlt h
      obtain ⟨offset, rfl⟩ := Nat.exists_eq_add_of_le hle
      rw [← String.length_utf8EncodeChar, isBoundary_length_add] at h
      obtain ⟨before, after, rfl, rfl⟩ := ih.mp h
      exact ⟨c :: before, after, rfl, (width_cons c before).symm⟩
    · rintro ⟨before, after, heq, rfl⟩
      cases before with
      | nil =>
        rw [← List.flatMap_cons]
        exact isBoundary_zero _
      | cons d before =>
        obtain ⟨rfl, rfl⟩ := List.cons.inj heq
        rw [width_cons, ← String.length_utf8EncodeChar, isBoundary_length_add]
        exact ih.mpr ⟨before, after, rfl, rfl⟩

/-! ## Slices -/

/-- Where a text stands between other text, it is cut out. -/
theorem slice?_eq_some (htext : text.toList = before ++ part.toList ++ after)
    (hstart : start = width before) (hstop : stop = start + width part.toList) :
    slice? text start stop = some part := by
  have hbytes : encode text = before.flatMap String.utf8EncodeChar ++
      (encode part ++ after.flatMap String.utf8EncodeChar) := by
    rw [encode, htext]
    simp [encode]
  have hfirst : IsBoundary (encode text) start := by
    rw [encode, isBoundary_flatMap_iff]
    exact ⟨before, part.toList ++ after, by rw [htext, List.append_assoc], hstart⟩
  have hlast : IsBoundary (encode text) stop := by
    rw [encode, isBoundary_flatMap_iff]
    exact ⟨before ++ part.toList, after, htext, by rw [hstop, hstart, width_append]⟩
  have hpart : ((encode text).take stop).drop start = encode part := by
    have hlength : stop - start = (encode part).length := by
      rw [length_encode]
      omega
    rw [List.drop_take, hlength, hbytes, hstart, width, List.drop_left, List.take_left]
  rw [slice?, if_pos ⟨by omega, hfirst, hlast⟩, hpart, decode_encode]
  rfl

theorem eq_nil_of_width_eq_zero (h : width cs = 0) : cs = [] := by
  cases cs with
  | nil => rfl
  | cons c cs =>
    rw [width_cons] at h
    have := c.utf8Size_pos
    omega

/-- Two boundaries have a part of the text between them. -/
theorem exists_part_of_isBoundary (hle : start ≤ stop) (hstart : IsBoundary (encode text) start)
    (hstop : IsBoundary (encode text) stop) :
    ∃ (before : List Char) (part : String) (after : List Char),
      text.toList = before ++ part.toList ++ after ∧ start = width before ∧
        stop = start + width part.toList := by
  obtain ⟨before, more, htext, rfl⟩ := isBoundary_flatMap_iff.mp hstart
  obtain ⟨front, after, htext', rfl⟩ := isBoundary_flatMap_iff.mp hstop
  rcases List.append_eq_append_iff.mp (htext.symm.trans htext') with ⟨u, rfl, rfl⟩ | ⟨u, rfl, rfl⟩
  · refine ⟨before, String.ofList u, after, ?_, rfl, ?_⟩
    · rw [String.toList_ofList, htext']
    · rw [String.toList_ofList, width_append]
  · rw [width_append] at hle
    have hu : width u = 0 := by omega
    obtain rfl := eq_nil_of_width_eq_zero hu
    exact ⟨front, "", more, by simpa using htext, by simp, by simp⟩

/-- **A slice is what stands in the text between two of its parts.** -/
theorem slice?_eq_some_iff : slice? text start stop = some part ↔
    ∃ before after, text.toList = before ++ part.toList ++ after ∧ start = width before ∧
      stop = start + width part.toList := by
  constructor
  · intro h
    have hcut : start ≤ stop ∧ IsBoundary (encode text) start ∧ IsBoundary (encode text) stop := by
      refine Decidable.byContradiction fun hcut => ?_
      rw [slice?, if_neg hcut] at h
      cases h
    obtain ⟨before, found, after, htext, hstart, hstop⟩ :=
      exists_part_of_isBoundary hcut.1 hcut.2.1 hcut.2.2
    obtain rfl := Option.some.inj ((slice?_eq_some htext hstart hstop).symm.trans h)
    exact ⟨before, after, htext, hstart, hstop⟩
  · rintro ⟨before, after, htext, hstart, hstop⟩
    exact slice?_eq_some htext hstart hstop

end Utf8
end TagTemplate
