import TagTemplate.Proofs.Utf8

/-!
# Where decoding fails

The fault of bytes that are not those of a text has an index.  Everything in front of it is
valid, and more is not: it is the length of the longest valid beginning of the bytes
(`Utf8.isLongestValid_of_decode`).  The reason is that the machine reads whole characters as
long as there is one (`Utf8.exists_split_of_decodeFrom`), and stops at the first place where no
character stands (`Utf8.index_of_decodeFrom`).

The two kinds of faults differ in what more bytes can do.  Bytes that end inside a character can
be continued to a text, and all others cannot (`Utf8.incomplete_iff_of_decode`).  What a fault
says in words is `Utf8.Wording`.
-/

namespace TagTemplate
namespace Utf8

/-- Where the character starts that was being read. -/
def Fault.index : Fault → Nat
  | invalid index _ => index
  | incomplete index => index

/-- So many first bytes are the bytes of a text, and no greater number of them is. -/
structure IsLongestValid (bytes : List UInt8) (n : Nat) : Prop where
  le_length : n ≤ bytes.length
  valid : ∃ text, encode text = bytes.take n
  longest : ∀ m ≤ bytes.length, (∃ text, encode text = bytes.take m) → m ≤ n

variable {bytes more : List UInt8} {index : Nat} {text result : String} {fault : Fault}
  {u : Unfinished} {n length : Nat}

/-! ## The place of a fault -/

/-- The machine fails inside a character, or it gets past it. -/
theorem index_eq_or_completes_of_decodeFrom
    (h : decodeFrom index text (some u) bytes = .error fault) :
    fault.index = index ∨ ∃ front rest c, bytes = front ++ rest ∧ Completes u front c := by
  induction bytes generalizing u with
  | nil =>
    rw [decodeFrom] at h
    obtain rfl := Except.error.inj h
    exact .inl rfl
  | cons byte bytes ih =>
    obtain ⟨seen, bits, further, low, high⟩ := u
    rw [decodeFrom] at h
    split at h
    · rename_i hrange
      cases further with
      | zero => exact .inr ⟨[byte], bytes, _, rfl, .last hrange rfl⟩
      | succ further =>
        refine (ih h).imp_right ?_
        rintro ⟨front, rest, c, rfl, hmore⟩
        exact ⟨byte :: front, rest, c, rfl, .more hrange hmore⟩
    · obtain rfl := Except.error.inj h
      exact .inl rfl

/-- Where no character stands, the machine fails at once. -/
theorem index_of_decodeFrom (h : decodeFrom index text none bytes = .error fault)
    (hchar : ∀ c rest, bytes ≠ String.utf8EncodeChar c ++ rest) : fault.index = index := by
  cases bytes with
  | nil => exact absurd h (by simp [decodeFrom])
  | cons byte bytes =>
    rw [decodeFrom] at h
    split at h
    · rename_i hascii
      exact absurd (by rw [utf8EncodeChar_ascii hascii]; rfl) (hchar _ bytes)
    · split at h
      · obtain rfl := Except.error.inj h
        rfl
      · rename_i u hlead
        rcases index_eq_or_completes_of_decodeFrom h with hindex | ⟨front, rest, c, rfl, hfront⟩
        · exact hindex
        · refine absurd ?_ (hchar c rest)
          rw [utf8EncodeChar_of_completes hlead hfront, List.cons_append]

/-- **The machine reads characters as long as there are any.**  Where it fails there is none. -/
theorem exists_split_of_decodeFrom (h : decodeFrom index text none bytes = .error fault) :
    ∃ (cs : List Char) (rest : List UInt8), bytes = cs.flatMap String.utf8EncodeChar ++ rest ∧
      fault.index = index + (cs.flatMap String.utf8EncodeChar).length ∧
      ∀ c more, rest ≠ String.utf8EncodeChar c ++ more := by
  induction hlength : bytes.length using Nat.strongRecOn generalizing index text bytes with
  | ind length ih =>
    by_cases hchar : ∃ c rest, bytes = String.utf8EncodeChar c ++ rest
    · obtain ⟨c, rest, rfl⟩ := hchar
      rw [decodeFrom_utf8EncodeChar] at h
      have hpos := List.length_pos_iff.mpr (String.utf8EncodeChar_ne_nil (c := c))
      rw [List.length_append] at hlength
      obtain ⟨cs, rest, rfl, hindex, hnone⟩ := ih rest.length (by omega) h rfl
      refine ⟨c :: cs, rest, by rw [List.flatMap_cons, List.append_assoc], ?_, hnone⟩
      rw [hindex, List.flatMap_cons, List.length_append, Nat.add_assoc]
    · have hnone : ∀ c more, bytes ≠ String.utf8EncodeChar c ++ more :=
        fun c more heq => hchar ⟨c, more, heq⟩
      exact ⟨[], bytes, rfl, index_of_decodeFrom h hnone, hnone⟩

/-- **A fault is at the end of the longest valid beginning.** -/
theorem isLongestValid_of_decode (h : decode bytes = .error fault) :
    IsLongestValid bytes fault.index := by
  obtain ⟨cs, rest, rfl, hindex, hnone⟩ := exists_split_of_decodeFrom h
  rw [Nat.zero_add] at hindex
  rw [hindex]
  refine ⟨by simp, ⟨String.ofList cs, by simp [encode]⟩, ?_⟩
  rintro m hm ⟨longer, hlonger⟩
  refine Nat.le_of_not_lt fun hlt => ?_
  -- what is taken of the rest would start with a character
  have hdecode := decode_eq_ok_iff.mpr hlonger
  rw [List.take_append, List.take_of_length_le (by omega), decode, decodeFrom_flatMap] at hdecode
  obtain ⟨byte, taken, htaken⟩ := List.exists_cons_of_ne_nil
    (show rest.take (m - (cs.flatMap String.utf8EncodeChar).length) ≠ [] by
      rw [ne_eq, ← List.length_eq_zero_iff, List.length_take]
      rw [List.length_append] at hm
      omega)
  rw [htaken] at hdecode
  obtain ⟨c, more, hchar⟩ := exists_utf8EncodeChar_of_decodeFrom hdecode
  refine hnone c (more ++ rest.drop (m - (cs.flatMap String.utf8EncodeChar).length)) ?_
  rw [← List.append_assoc, ← hchar, ← htaken, List.take_append_drop]

/-! ## What more bytes can do -/

/-- Some byte may come next. -/
def Unfinished.IsOpen (u : Unfinished) : Prop := u.low ≤ u.high ∧ u.high < 0x100

theorem isOpen_of_lead? {code : Nat} (h : lead? code = some u) : u.IsOpen := by
  rcases lead?_range h with hrange | hrange | hrange
  · rw [lead?_two hrange] at h
    obtain rfl := Option.some.inj h
    exact ⟨by simp, by simp⟩
  · rw [lead?_three hrange] at h
    obtain rfl := Option.some.inj h
    constructor
    · dsimp only
      split <;> split <;> omega
    · dsimp only
      split <;> omega
  · rw [lead?_four hrange] at h
    obtain rfl := Option.some.inj h
    constructor
    · dsimp only
      split <;> split <;> omega
    · dsimp only
      split <;> omega

/-- An unfinished character can be completed. -/
theorem exists_completes (h : u.IsOpen) : ∃ bytes c, Completes u bytes c := by
  obtain ⟨seen, bits, further, low, high⟩ := u
  obtain ⟨hle, hlt⟩ := h
  dsimp only at hle hlt
  have hlow : (UInt8.ofNat low).toNat = low := by
    rw [UInt8.toNat_ofNat', Nat.mod_eq_of_lt (by omega)]
  induction further generalizing seen bits low high with
  | zero => exact ⟨[UInt8.ofNat low], _, .last (by omega) rfl⟩
  | succ further ih =>
    obtain ⟨bytes, c, hmore⟩ := ih (seen + 1) (bits * 0x40 + (UInt8.ofNat low).toNat % 0x40)
      0x80 0xBF (by omega) (by omega) rfl
    exact ⟨UInt8.ofNat low :: bytes, c, .more (by omega) hmore⟩

/-- Bytes that are incomplete leave the machine inside a character. -/
theorem exists_unfinished_of_decodeFrom {state : Option Unfinished}
    (h : decodeFrom index text state bytes = .error (.incomplete n))
    (hopen : ∀ u ∈ state, u.IsOpen) : ∃ read u, u.IsOpen ∧
      ∀ more, decodeFrom index text state (bytes ++ more) = decodeFrom n read (some u) more := by
  fun_induction decodeFrom index text state bytes with
  | case1 => exact absurd h (by simp)
  | case2 index text u =>
    obtain rfl : index = n := by simpa using h
    exact ⟨text, u, hopen u rfl, fun more => rfl⟩
  | case3 index text byte bytes hascii ih =>
    obtain ⟨read, u, hu, hmore⟩ := ih h hopen
    refine ⟨read, u, hu, fun more => ?_⟩
    rw [List.cons_append, decodeFrom, if_pos hascii, hmore]
  | case4 => exact absurd h (by simp)
  | case5 index text byte bytes hascii first hlead ih =>
    obtain ⟨read, u, hu, hmore⟩ := ih h fun v hv => Option.some.inj hv ▸ isOpen_of_lead? hlead
    refine ⟨read, u, hu, fun more => ?_⟩
    rw [List.cons_append, decodeFrom, if_neg hascii, hlead]
    exact hmore more
  | case6 index text seen bits low high byte bytes hrange _ ih =>
    obtain ⟨read, u, hu, hmore⟩ := ih h (by simp)
    refine ⟨read, u, hu, fun more => ?_⟩
    rw [List.cons_append, decodeFrom, if_pos hrange]
    exact hmore more
  | case7 index text seen bits low high byte bytes hrange _ further ih =>
    obtain ⟨read, u, hu, hmore⟩ := ih h (by simp [Unfinished.IsOpen])
    refine ⟨read, u, hu, fun more => ?_⟩
    rw [List.cons_append, decodeFrom, if_pos hrange]
    exact hmore more
  | case8 => exact absurd h (by simp)

/-- Bytes that are invalid stay so, whatever comes after them. -/
theorem decodeFrom_append_of_invalid {state : Option Unfinished}
    (h : decodeFrom index text state bytes = .error (.invalid n length)) (more : List UInt8) :
    decodeFrom index text state (bytes ++ more) = .error (.invalid n length) := by
  fun_induction decodeFrom index text state bytes with
  | case1 => exact absurd h (by simp)
  | case2 => exact absurd h (by simp)
  | case3 index text byte bytes hascii ih =>
    rw [List.cons_append, decodeFrom, if_pos hascii, ih h]
  | case4 index text byte bytes hascii hlead =>
    rw [List.cons_append, decodeFrom, if_neg hascii, hlead]
    exact h
  | case5 index text byte bytes hascii first hlead ih =>
    rw [List.cons_append, decodeFrom, if_neg hascii, hlead]
    exact ih h
  | case6 index text seen bits low high byte bytes hrange _ ih =>
    rw [List.cons_append, decodeFrom, if_pos hrange]
    exact ih h
  | case7 index text seen bits low high byte bytes hrange _ further ih =>
    rw [List.cons_append, decodeFrom, if_pos hrange]
    exact ih h
  | case8 index text seen bits further low high byte bytes hrange =>
    rw [List.cons_append, decodeFrom, if_neg hrange]
    exact h

/-- **The two kinds of faults.**  Bytes are incomplete when more bytes can make a text of
them. -/
theorem incomplete_iff_of_decode (h : decode bytes = .error fault) :
    fault = .incomplete fault.index ↔ ∃ more text, encode text = bytes ++ more := by
  cases fault with
  | invalid index length =>
    refine iff_of_false (by simp) ?_
    rintro ⟨more, text, htext⟩
    have hagain := decodeFrom_append_of_invalid h more
    rw [← decode, decode_eq_ok_iff.mpr htext] at hagain
    exact absurd hagain (by simp)
  | incomplete index =>
    refine iff_of_true rfl ?_
    obtain ⟨read, u, hu, hmore⟩ := exists_unfinished_of_decodeFrom h (by simp)
    obtain ⟨more, c, hcompletes⟩ := exists_completes hu
    have hdecode := decodeFrom_of_completes hcompletes index read []
    rw [List.append_nil] at hdecode
    exact ⟨more, read.push c, decode_eq_ok_iff.mp ((hmore more).trans hdecode)⟩

/-- The wording of a fault of bytes that are valid up to an index and no further. -/
inductive Wording (bytes : List UInt8) (index : Nat) : String → Prop where
  /-- More bytes can make a text of them. -/
  | incomplete (h : ∃ more text, encode text = bytes ++ more) :
      Wording bytes index s!"incomplete utf-8 byte sequence from index {index}"
  /-- They are those of no text, whatever comes after them. -/
  | invalid (length : Nat) (h : ¬ ∃ more text, encode text = bytes ++ more) :
      Wording bytes index s!"invalid utf-8 sequence of {length} bytes from index {index}"

theorem wording_of_decode (h : decode bytes = .error fault) :
    Wording bytes fault.index fault.message := by
  have hiff := incomplete_iff_of_decode h
  cases fault with
  | invalid index length => exact .invalid length (mt hiff.mpr (by simp))
  | incomplete index => exact .incomplete (hiff.mp rfl)

end Utf8
end TagTemplate
