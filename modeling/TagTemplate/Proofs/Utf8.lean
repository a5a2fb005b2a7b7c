import TagTemplate.Utf8

/-!
# Decoding undoes encoding

`Utf8.decode` reads one byte at a time and `Utf8.encode` writes one character at a time.
What ties them together is the character that further bytes make of an unfinished one,
`Utf8.Completes`: the machine follows it byte by byte (`decodeFrom_of_completes`,
`exists_completes_of_decodeFrom`), and first bytes together with what completes them are
exactly the bytes of characters that are not ASCII characters
(`utf8EncodeChar_of_completes`, `exists_completes_of_utf8EncodeChar`).

So bytes are decoded exactly if they are the bytes of a text, and then to this text:
`decode_eq_ok_iff`.
-/

namespace TagTemplate
namespace Utf8

/-! ## First bytes -/

/-- The bytes after the first one of a character. -/
def IsTail (byte : UInt8) : Prop := 0x80 ≤ byte.toNat ∧ byte.toNat ≤ 0xBF

variable {byte : UInt8} {code : Nat}

theorem lead?_two (h : 0xC2 ≤ code ∧ code ≤ 0xDF) :
    lead? code = some ⟨1, code % 0x20, 0, 0x80, 0xBF⟩ := by
  rw [lead?, if_neg (by omega), if_pos h.2]

/-- The second byte is restricted where it has to exclude overlong forms and surrogates. -/
theorem lead?_three (h : 0xE0 ≤ code ∧ code ≤ 0xEF) :
    lead? code = some ⟨1, code % 0x10, 1, if code = 0xE0 then 0xA0 else 0x80,
      if code = 0xED then 0x9F else 0xBF⟩ := by
  rw [lead?, if_neg (by omega), if_neg (by omega)]
  by_cases hlow : code = 0xE0
  · rw [hlow]
    rfl
  by_cases hhigh : code = 0xED
  · rw [hhigh]
    rfl
  · rw [if_neg hlow, if_neg hhigh, if_pos h.2, if_neg hlow, if_neg hhigh]

/-- The second byte is restricted where it has to exclude overlong forms and code points
that are too large. -/
theorem lead?_four (h : 0xF0 ≤ code ∧ code ≤ 0xF4) :
    lead? code = some ⟨1, code % 8, 2, if code = 0xF0 then 0x90 else 0x80,
      if code = 0xF4 then 0x8F else 0xBF⟩ := by
  obtain rfl | rfl | hmiddle : code = 0xF0 ∨ code = 0xF4 ∨ (0xF1 ≤ code ∧ code ≤ 0xF3) := by
    omega
  · rfl
  · rfl
  · rw [lead?, if_neg (by omega), if_neg (by omega), if_neg (by omega), if_neg (by omega),
      if_neg (by omega), if_neg (by omega), if_pos hmiddle.2, if_neg (by omega),
      if_neg (by omega)]

/-- No other bytes come first in a character that is not an ASCII character. -/
theorem lead?_range {u : Unfinished} (h : lead? code = some u) :
    (0xC2 ≤ code ∧ code ≤ 0xDF) ∨ (0xE0 ≤ code ∧ code ≤ 0xEF) ∨
      (0xF0 ≤ code ∧ code ≤ 0xF4) := by
  by_cases hlow : code < 0xC2
  · rw [lead?, if_pos hlow] at h
    exact absurd h (by simp)
  by_cases hhigh : 0xF4 < code
  · rw [lead?, if_neg hlow, if_neg (by omega), if_neg (by omega), if_neg (by omega),
      if_neg (by omega), if_neg (by omega), if_neg (by omega), if_neg (by omega)] at h
    exact absurd h (by simp)
  · omega

/-! ## Whole characters -/

/-- Further bytes make a character of an unfinished one. -/
inductive Completes : Unfinished → List UInt8 → Char → Prop where
  | last {seen bits low high : Nat} {byte : UInt8} {c : Char}
      (h : low ≤ byte.toNat ∧ byte.toNat ≤ high)
      (hc : Char.ofNat (bits * 0x40 + byte.toNat % 0x40) = c) :
      Completes ⟨seen, bits, 0, low, high⟩ [byte] c
  | more {seen bits further low high : Nat} {byte : UInt8} {bytes : List UInt8} {c : Char}
      (h : low ≤ byte.toNat ∧ byte.toNat ≤ high)
      (hmore : Completes ⟨seen + 1, bits * 0x40 + byte.toNat % 0x40, further, 0x80, 0xBF⟩
        bytes c) :
      Completes ⟨seen, bits, further + 1, low, high⟩ (byte :: bytes) c

theorem toNat_ofNat (code : Nat) (h : code < 0xD800 ∨ (0xDFFF < code ∧ code < 0x110000)) :
    (Char.ofNat code).val.toNat = code := by
  rw [Char.ofNat, dif_pos h]
  rfl

theorem ofNat_eq_iff {code : Nat} (h : code < 0x100) :
    UInt8.ofNat code = byte ↔ code = byte.toNat := by
  rw [UInt8.ofNat_eq_iff_mod_eq_toNat, Nat.mod_eq_of_lt h]

/-- An ASCII character is one byte. -/
theorem utf8EncodeChar_ascii (h : byte.toNat < 0x80) :
    String.utf8EncodeChar (Char.ofNat byte.toNat) = [byte] := by
  have hcode := toNat_ofNat byte.toNat (by omega)
  simp only [String.utf8EncodeChar, hcode]
  rw [if_pos (by omega), UInt8.ofNat_toNat]

theorem exists_byte_of_ascii {c : Char} (h : c.toNat < 0x80) :
    ∃ byte, String.utf8EncodeChar c = [byte] ∧ byte.toNat = c.toNat := by
  have hbyte : (UInt8.ofNat c.toNat).toNat = c.toNat := by
    rw [UInt8.toNat_ofNat', Nat.mod_eq_of_lt (by omega)]
  have hascii : (UInt8.ofNat c.toNat).toNat < 0x80 := by rwa [hbyte]
  have hencode := utf8EncodeChar_ascii hascii
  rw [hbyte, Char.ofNat_toNat] at hencode
  exact ⟨UInt8.ofNat c.toNat, hencode, hbyte⟩

theorem utf8EncodeChar_two {a b : UInt8} (ha : 0xC2 ≤ a.toNat ∧ a.toNat ≤ 0xDF)
    (hb : IsTail b) :
    String.utf8EncodeChar (Char.ofNat (a.toNat % 0x20 * 0x40 + b.toNat % 0x40)) = [a, b] := by
  unfold IsTail at hb
  have hcode := toNat_ofNat (a.toNat % 0x20 * 0x40 + b.toNat % 0x40) (by omega)
  simp only [String.utf8EncodeChar, hcode]
  rw [if_neg (by omega), if_pos (by omega)]
  simp only [List.cons.injEq, and_true]
  exact ⟨(ofNat_eq_iff (by omega)).mpr (by omega), (ofNat_eq_iff (by omega)).mpr (by omega)⟩

theorem utf8EncodeChar_three {a b c : UInt8} (ha : 0xE0 ≤ a.toNat ∧ a.toNat ≤ 0xEF)
    (hb : IsTail b) (hlow : a.toNat = 0xE0 → 0xA0 ≤ b.toNat)
    (hhigh : a.toNat = 0xED → b.toNat ≤ 0x9F) (hc : IsTail c) :
    String.utf8EncodeChar (Char.ofNat
      ((a.toNat % 0x10 * 0x40 + b.toNat % 0x40) * 0x40 + c.toNat % 0x40)) = [a, b, c] := by
  unfold IsTail at hb hc
  have hcode := toNat_ofNat
    ((a.toNat % 0x10 * 0x40 + b.toNat % 0x40) * 0x40 + c.toNat % 0x40) (by omega)
  simp only [String.utf8EncodeChar, hcode]
  rw [if_neg (by omega), if_neg (by omega), if_pos (by omega)]
  simp only [List.cons.injEq, and_true]
  exact ⟨(ofNat_eq_iff (by omega)).mpr (by omega), (ofNat_eq_iff (by omega)).mpr (by omega),
    (ofNat_eq_iff (by omega)).mpr (by omega)⟩

theorem utf8EncodeChar_four {a b c d : UInt8} (ha : 0xF0 ≤ a.toNat ∧ a.toNat ≤ 0xF4)
    (hb : IsTail b) (hlow : a.toNat = 0xF0 → 0x90 ≤ b.toNat)
    (hhigh : a.toNat = 0xF4 → b.toNat ≤ 0x8F) (hc : IsTail c) (hd : IsTail d) :
    String.utf8EncodeChar (Char.ofNat
      (((a.toNat % 8 * 0x40 + b.toNat % 0x40) * 0x40 + c.toNat % 0x40) * 0x40 +
        d.toNat % 0x40)) = [a, b, c, d] := by
  unfold IsTail at hb hc hd
  have hcode := toNat_ofNat (((a.toNat % 8 * 0x40 + b.toNat % 0x40) * 0x40 +
    c.toNat % 0x40) * 0x40 + d.toNat % 0x40) (by omega)
  simp only [String.utf8EncodeChar, hcode]
  rw [if_neg (by omega), if_neg (by omega), if_neg (by omega)]
  simp only [List.cons.injEq, and_true]
  exact ⟨(ofNat_eq_iff (by omega)).mpr (by omega), (ofNat_eq_iff (by omega)).mpr (by omega),
    (ofNat_eq_iff (by omega)).mpr (by omega), (ofNat_eq_iff (by omega)).mpr (by omega)⟩

/-- A first byte and what completes the character that it starts are the bytes of that
character. -/
theorem utf8EncodeChar_of_completes {u : Unfinished} {bytes : List UInt8} {c : Char}
    (hlead : lead? byte.toNat = some u) (h : Completes u bytes c) :
    String.utf8EncodeChar c = byte :: bytes := by
  rcases lead?_range hlead with hrange | hrange | hrange
  · rw [lead?_two hrange] at hlead
    obtain rfl := Option.some.inj hlead
    cases h with
    | last hb hchar =>
      rw [← hchar]
      exact utf8EncodeChar_two hrange hb
  · rw [lead?_three hrange] at hlead
    obtain rfl := Option.some.inj hlead
    cases h with
    | more hb hmore =>
      cases hmore with
      | last hc hchar =>
        rw [← hchar]
        refine utf8EncodeChar_three hrange ?_ ?_ ?_ hc
        · unfold IsTail
          split at hb <;> split at hb <;> omega
        · intro hlow
          rw [if_pos hlow] at hb
          exact hb.1
        · intro hhigh
          rw [if_pos hhigh] at hb
          exact hb.2
  · rw [lead?_four hrange] at hlead
    obtain rfl := Option.some.inj hlead
    cases h with
    | more hb hmore =>
      cases hmore with
      | more hc hmore =>
        cases hmore with
        | last hd hchar =>
          rw [← hchar]
          refine utf8EncodeChar_four hrange ?_ ?_ ?_ hc hd
          · unfold IsTail
            split at hb <;> split at hb <;> omega
          · intro hlow
            rw [if_pos hlow] at hb
            exact hb.1
          · intro hhigh
            rw [if_pos hhigh] at hb
            exact hb.2

/-- The bytes of a character that is not an ASCII character are a first byte and what
completes it. -/
theorem exists_completes_of_utf8EncodeChar {c : Char} (h : 0x80 ≤ c.toNat) :
    ∃ byte u bytes, String.utf8EncodeChar c = byte :: bytes ∧ 0x80 ≤ byte.toNat ∧
      lead? byte.toNat = some u ∧ Completes u bytes c := by
  have hvalid : c.toNat < 0xD800 ∨ (0xDFFF < c.toNat ∧ c.toNat < 0x110000) := c.valid
  have hbyte : ∀ k : Nat, k < 0x100 → (UInt8.ofNat k).toNat = k := fun k hk => by
    rw [UInt8.toNat_ofNat', Nat.mod_eq_of_lt hk]
  have hchar : ∀ k : Nat, k = c.toNat → Char.ofNat k = c := fun k hk => by
    rw [hk, Char.ofNat_toNat]
  simp only [String.utf8EncodeChar, Char.toNat_val]
  rw [if_neg (by omega)]
  split
  · have ha := hbyte (c.toNat / 64 % 32 + 192) (by omega)
    have hb := hbyte (c.toNat % 64 + 128) (by omega)
    refine ⟨_, _, _, rfl, by omega, lead?_two (by omega), .last (by omega) (hchar _ ?_)⟩
    omega
  split
  · have ha := hbyte (c.toNat / 4096 % 16 + 224) (by omega)
    have hb := hbyte (c.toNat / 64 % 64 + 128) (by omega)
    have hc := hbyte (c.toNat % 64 + 128) (by omega)
    refine ⟨_, _, _, rfl, by omega, lead?_three (by omega),
      .more ⟨?_, ?_⟩ (.last (by omega) (hchar _ ?_))⟩
    · split <;> omega
    · split <;> omega
    · omega
  · have ha := hbyte (c.toNat / 262144 % 8 + 240) (by omega)
    have hb := hbyte (c.toNat / 4096 % 64 + 128) (by omega)
    have hc := hbyte (c.toNat / 64 % 64 + 128) (by omega)
    have hd := hbyte (c.toNat % 64 + 128) (by omega)
    refine ⟨_, _, _, rfl, by omega, lead?_four (by omega),
      .more ⟨?_, ?_⟩ (.more (by omega) (.last (by omega) (hchar _ ?_)))⟩
    · split <;> omega
    · split <;> omega
    · omega

/-! ## The machine -/

variable {u : Unfinished} {bytes rest : List UInt8} {c : Char} {index : Nat} {text : String}

/-- The machine follows the bytes that complete a character. -/
theorem decodeFrom_of_completes (h : Completes u bytes c) (index : Nat) (text : String)
    (rest : List UInt8) : decodeFrom index text (some u) (bytes ++ rest) =
      decodeFrom (index + u.seen + bytes.length) (text.push c) none rest := by
  induction h with
  | last h hc =>
    rw [List.cons_append, List.nil_append, decodeFrom, if_pos h, ← hc]
    rfl
  | @more seen bits further low high byte bytes c h hmore ih =>
    rw [List.cons_append, decodeFrom, if_pos h]
    simp only [ih, List.length_cons]
    congr 1
    omega

/-- Where the machine does not fail, some first bytes complete the character. -/
theorem exists_completes_of_decodeFrom {result : String}
    (h : decodeFrom index text (some u) bytes = .ok result) :
    ∃ front rest c, bytes = front ++ rest ∧ Completes u front c := by
  induction bytes generalizing u with
  | nil => simp [decodeFrom] at h
  | cons byte bytes ih =>
    obtain ⟨seen, bits, further, low, high⟩ := u
    rw [decodeFrom] at h
    split at h
    · rename_i hrange
      cases further with
      | zero => exact ⟨[byte], bytes, _, rfl, .last hrange rfl⟩
      | succ further =>
        obtain ⟨front, rest, c, rfl, hmore⟩ := ih h
        exact ⟨byte :: front, rest, c, rfl, .more hrange hmore⟩
    · simp at h

/-- The bytes of a character are decoded to it. -/
theorem decodeFrom_utf8EncodeChar (index : Nat) (text : String) (c : Char)
    (rest : List UInt8) : decodeFrom index text none (String.utf8EncodeChar c ++ rest) =
      decodeFrom (index + (String.utf8EncodeChar c).length) (text.push c) none rest := by
  by_cases h : 0x80 ≤ c.toNat
  · obtain ⟨byte, u, bytes, hencode, hbyte, hlead, hcompletes⟩ :=
      exists_completes_of_utf8EncodeChar h
    have hseen : u.seen = 1 := by
      rcases lead?_range hlead with hrange | hrange | hrange
      · rw [lead?_two hrange] at hlead
        rw [← Option.some.inj hlead]
      · rw [lead?_three hrange] at hlead
        rw [← Option.some.inj hlead]
      · rw [lead?_four hrange] at hlead
        rw [← Option.some.inj hlead]
    rw [hencode, List.cons_append, decodeFrom, if_neg (by omega), hlead]
    simp only [decodeFrom_of_completes hcompletes, hseen, List.length_cons]
    congr 1
    omega
  · obtain ⟨byte, hencode, hbyte⟩ := exists_byte_of_ascii (Nat.lt_of_not_le h)
    rw [hencode, List.cons_append, List.nil_append, decodeFrom, if_pos (by omega), hbyte,
      Char.ofNat_toNat]
    rfl

/-- Where the machine does not fail, the first bytes are those of a character. -/
theorem exists_utf8EncodeChar_of_decodeFrom {byte : UInt8} {result : String}
    (h : decodeFrom index text none (byte :: bytes) = .ok result) :
    ∃ c rest, byte :: bytes = String.utf8EncodeChar c ++ rest := by
  rw [decodeFrom] at h
  split at h
  · rename_i hascii
    refine ⟨Char.ofNat byte.toNat, bytes, ?_⟩
    rw [utf8EncodeChar_ascii hascii]
    rfl
  · split at h
    · simp at h
    · rename_i u hlead
      obtain ⟨front, rest, c, rfl, hcompletes⟩ := exists_completes_of_decodeFrom h
      refine ⟨c, rest, ?_⟩
      rw [utf8EncodeChar_of_completes hlead hcompletes, List.cons_append]

/-! ## Texts -/

/-- The bytes of characters are decoded to them, whatever follows. -/
theorem decodeFrom_flatMap (index : Nat) (text : String) (cs : List Char)
    (rest : List UInt8) :
    decodeFrom index text none (cs.flatMap String.utf8EncodeChar ++ rest) =
      decodeFrom (index + (cs.flatMap String.utf8EncodeChar).length)
        (text ++ String.ofList cs) none rest := by
  induction cs generalizing index text with
  | nil => simp
  | cons c cs ih =>
    rw [List.flatMap_cons, List.append_assoc, decodeFrom_utf8EncodeChar, ih]
    congr 1
    · rw [List.length_append, Nat.add_assoc]
    · rw [← String.toList_inj]
      simp

/-- **Decoding undoes encoding.**  The bytes of a text are decoded to it. -/
theorem decode_encode (text : String) : decode (encode text) = .ok text := by
  have h := decodeFrom_flatMap 0 "" text.toList []
  rw [List.append_nil, String.ofList_toList, String.empty_append] at h
  exact h

/-- Bytes that are decoded are the bytes of a text. -/
theorem exists_flatMap_of_decodeFrom {result : String}
    (h : decodeFrom index text none bytes = .ok result) :
    ∃ cs : List Char, bytes = cs.flatMap String.utf8EncodeChar := by
  induction hlength : bytes.length using Nat.strongRecOn generalizing index text bytes with
  | ind length ih =>
    cases bytes with
    | nil => exact ⟨[], rfl⟩
    | cons byte bytes =>
      obtain ⟨c, rest, heq⟩ := exists_utf8EncodeChar_of_decodeFrom h
      rw [heq, decodeFrom_utf8EncodeChar] at h
      have hshorter : rest.length < length := by
        have hlen := congrArg List.length heq
        have hpos := List.length_pos_iff.mpr (String.utf8EncodeChar_ne_nil (c := c))
        rw [List.length_append, hlength] at hlen
        omega
      obtain ⟨cs, rfl⟩ := ih _ hshorter h rfl
      exact ⟨c :: cs, by rw [heq, List.flatMap_cons]⟩

/-- **Exactly the bytes of texts are decoded.** -/
theorem decode_eq_ok_iff {bytes : List UInt8} {text : String} :
    decode bytes = .ok text ↔ encode text = bytes := by
  constructor
  · intro h
    obtain ⟨cs, rfl⟩ := exists_flatMap_of_decodeFrom h
    have hagain : decode (encode (String.ofList cs)) = .ok (String.ofList cs) :=
      decode_encode (String.ofList cs)
    rw [encode, String.toList_ofList, h] at hagain
    rw [Except.ok.inj hagain, encode, String.toList_ofList]
  · rintro rfl
    exact decode_encode text

end Utf8
end TagTemplate
