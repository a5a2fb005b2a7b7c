/-!
# UTF-8

Texts as bytes.  `decode` reads bytes one at a time.  The first byte of a character
says how many bytes follow and in which range the next one must lie; that range is
narrower than the range of continuation bytes where it has to exclude overlong
forms, surrogates and code points above U+10FFFF.  All further bytes are plain
continuation bytes.

## Faults

Where decoding fails, everything in front of the character that was being read is
valid.  The fault gives the length of that part.  Bytes that cannot be continued to
a character are counted up to the byte that rules them out, which is counted only
if it comes first; bytes that end too early are incomplete instead.
-/

namespace TagTemplate
namespace Utf8

/-- The bytes of a text. -/
def encode (text : String) : List UInt8 := text.toList.flatMap String.utf8EncodeChar

/-- Why bytes are not the bytes of a text. -/
inductive Fault where
  /-- From the index on, so many bytes cannot be continued to a character. -/
  | invalid (index length : Nat)
  /-- The bytes end inside the character that starts at the index. -/
  | incomplete (index : Nat)
  deriving DecidableEq, Repr

/-- The wording of a fault. -/
def Fault.message : Fault → String
  | invalid index length => s!"invalid utf-8 sequence of {length} bytes from index {index}"
  | incomplete index => s!"incomplete utf-8 byte sequence from index {index}"

/-- A character of which some bytes have been read. -/
structure Unfinished where
  /-- The number of bytes read. -/
  seen : Nat
  /-- The bits that they hold. -/
  bits : Nat
  /-- The number of bytes after the next one. -/
  further : Nat
  /-- The least next byte. -/
  low : Nat
  /-- The greatest next byte. -/
  high : Nat
  deriving DecidableEq, Repr

/-- What the first byte of a character, if it is not an ASCII character, starts. -/
def lead? (byte : Nat) : Option Unfinished :=
  if byte < 0xC2 then none
  else if byte ≤ 0xDF then some ⟨1, byte % 0x20, 0, 0x80, 0xBF⟩
  else if byte = 0xE0 then some ⟨1, 0, 1, 0xA0, 0xBF⟩
  else if byte = 0xED then some ⟨1, 0xD, 1, 0x80, 0x9F⟩
  else if byte ≤ 0xEF then some ⟨1, byte % 0x10, 1, 0x80, 0xBF⟩
  else if byte = 0xF0 then some ⟨1, 0, 2, 0x90, 0xBF⟩
  else if byte ≤ 0xF3 then some ⟨1, byte % 8, 2, 0x80, 0xBF⟩
  else if byte = 0xF4 then some ⟨1, 4, 2, 0x80, 0x8F⟩
  else none

/-- Appends to `text` the text of bytes, of which the first is at `index`, or belongs
to the unfinished character that starts at `index`. -/
def decodeFrom (index : Nat) (text : String) :
    Option Unfinished → List UInt8 → Except Fault String
  | none, [] => .ok text
  | some _, [] => .error (.incomplete index)
  | none, byte :: bytes =>
      if byte.toNat < 0x80 then
        decodeFrom (index + 1) (text.push (Char.ofNat byte.toNat)) none bytes
      else
        match lead? byte.toNat with
        | none => .error (.invalid index 1)
        | some unfinished => decodeFrom index text (some unfinished) bytes
  | some ⟨seen, bits, further, low, high⟩, byte :: bytes =>
      if low ≤ byte.toNat ∧ byte.toNat ≤ high then
        let bits := bits * 0x40 + byte.toNat % 0x40
        match further with
        | 0 => decodeFrom (index + seen + 1) (text.push (Char.ofNat bits)) none bytes
        | further + 1 =>
            decodeFrom index text (some ⟨seen + 1, bits, further, 0x80, 0xBF⟩) bytes
      else .error (.invalid index seen)

/-- The text that bytes encode. -/
def decode (bytes : List UInt8) : Except Fault String := decodeFrom 0 "" none bytes

end Utf8
end TagTemplate
