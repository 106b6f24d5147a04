/-!
# Decoding of byte sequences as text

Text is stored as UTF-8.  Bytes that come from outside need not be well-formed, and
decoding never fails: every maximal part of an ill-formed sequence that could have been
the beginning of a character is read as one replacement character U+FFFD, and every byte
that can begin no character is one replacement character of its own.

## Main definitions

* `Lead` — what the first byte of a character says about the bytes that follow it.
* `decodeChar` — the first character of a byte sequence, and the rest.
* `decodeUtf8` — the text of a byte sequence.
-/

namespace Datacube

/-- The replacement character U+FFFD. -/
def replacementChar : Char := '\uFFFD'

/-- The shape of a character of two or more bytes, as its first byte determines it. -/
structure Lead where
  /-- How many bytes follow the first one. -/
  more : Nat
  /-- The least admissible second byte. -/
  low : Nat
  /-- The greatest admissible second byte. -/
  high : Nat
  /-- The bits that the first byte contributes. -/
  bits : Nat

/-- The shape that the byte `b` announces, if a longer character can begin with it.  The
bounds on the second byte exclude overlong forms (`E0`, `F0`), surrogates (`ED`) and
values above U+10FFFF (`F4`). -/
def Lead.ofByte? (b : Nat) : Option Lead :=
  if 0xC2 ≤ b ∧ b ≤ 0xDF then some ⟨1, 0x80, 0xBF, b - 0xC0⟩
  else if b = 0xE0 then some ⟨2, 0xA0, 0xBF, 0⟩
  else if b = 0xED then some ⟨2, 0x80, 0x9F, 0xD⟩
  else if 0xE1 ≤ b ∧ b ≤ 0xEF then some ⟨2, 0x80, 0xBF, b - 0xE0⟩
  else if b = 0xF0 then some ⟨3, 0x90, 0xBF, 0⟩
  else if 0xF1 ≤ b ∧ b ≤ 0xF3 then some ⟨3, 0x80, 0xBF, b - 0xF0⟩
  else if b = 0xF4 then some ⟨3, 0x80, 0x8F, 4⟩
  else none

/-- Reads `more` continuation bytes, the first of them between `low` and `high`, onto the
bits read so far.  At a byte that does not fit, the character is the replacement
character and that byte is left for the next one. -/
def decodeTail (acc : Nat) : Nat → Nat → Nat → List UInt8 → Char × List UInt8
  | 0, _, _, bs => (Char.ofNat acc, bs)
  | _ + 1, _, _, [] => (replacementChar, [])
  | more + 1, low, high, b :: bs =>
    if low ≤ b.toNat ∧ b.toNat ≤ high then
      decodeTail (acc * 64 + b.toNat % 64) more 0x80 0xBF bs
    else
      (replacementChar, b :: bs)

theorem length_decodeTail_le (acc more low high : Nat) (bs : List UInt8) :
    (decodeTail acc more low high bs).2.length ≤ bs.length := by
  induction bs generalizing acc more low high with
  | nil => cases more <;> simp [decodeTail]
  | cons b bs ih =>
    cases more with
    | zero => simp [decodeTail]
    | succ more =>
      simp only [decodeTail]
      split
      · exact Nat.le_succ_of_le (ih ..)
      · simp

/-- The character that begins with the byte `b`, and the bytes after it. -/
def decodeChar (b : UInt8) (bs : List UInt8) : Char × List UInt8 :=
  if b.toNat < 0x80 then (Char.ofNat b.toNat, bs)
  else match Lead.ofByte? b.toNat with
    | some lead => decodeTail lead.bits lead.more lead.low lead.high bs
    | none => (replacementChar, bs)

theorem length_decodeChar_le (b : UInt8) (bs : List UInt8) :
    (decodeChar b bs).2.length ≤ bs.length := by
  rw [decodeChar]
  split
  · simp
  · split
    · exact length_decodeTail_le ..
    · simp

/-- The characters of a byte sequence. -/
def decodeUtf8 : List UInt8 → List Char
  | [] => []
  | b :: bs => (decodeChar b bs).1 :: decodeUtf8 (decodeChar b bs).2
termination_by bs => bs.length
decreasing_by exact Nat.lt_succ_of_le (length_decodeChar_le b bs)

/-- The bytes of a text. -/
def encodeUtf8 (cs : List Char) : List UInt8 :=
  cs.flatMap String.utf8EncodeChar

@[simp] theorem encodeUtf8_nil : encodeUtf8 [] = [] := rfl

@[simp] theorem encodeUtf8_cons (c : Char) (cs : List Char) :
    encodeUtf8 (c :: cs) = String.utf8EncodeChar c ++ encodeUtf8 cs := rfl

end Datacube
