import Datacube.Text.Percent
import Datacube.Text.Utf8

/-!
# Bytes that are decoded again

The bytes of a text are decoded into that text, and escaped bytes into these bytes.  So nothing is
lost of a text whose bytes are escaped, one by one or only some of them.

## Main definitions

* `continuation` — the byte that carries six bits of a character.

## Main results

* `decodeUtf8_encodeUtf8` — **texts are read back** from their bytes.
* `percentDecode_escape`, `percentDecode_cons` — **escapes are resolved**, and other bytes stay.
-/

namespace Datacube

/-! ### Bytes after the first one -/

/-- The byte that carries the last six bits of a number. -/
def continuation (n : Nat) : UInt8 := UInt8.ofNat (n % 64 + 0x80)

theorem toNat_continuation (n : Nat) : (continuation n).toNat = n % 64 + 0x80 := by
  rw [continuation, UInt8.toNat_ofNat']
  omega

/-- A continuation byte within the bounds gives its bits to the character. -/
theorem decodeTail_continuation {n low high : Nat} (acc more : Nat) (rest : List UInt8)
    (hlow : low ≤ n % 64 + 0x80) (hhigh : n % 64 + 0x80 ≤ high) :
    decodeTail acc (more + 1) low high (continuation n :: rest)
      = decodeTail (acc * 64 + n % 64) more 0x80 0xBF rest := by
  have hbits : (n % 64 + 0x80) % 64 = n % 64 := by omega
  rw [decodeTail, toNat_continuation, if_pos ⟨hlow, hhigh⟩, hbits]

/-- After the second byte there are no narrower bounds. -/
theorem decodeTail_continuation_any (acc more n : Nat) (rest : List UInt8) :
    decodeTail acc (more + 1) 0x80 0xBF (continuation n :: rest)
      = decodeTail (acc * 64 + n % 64) more 0x80 0xBF rest :=
  decodeTail_continuation acc more rest (by omega) (by omega)

/-- After the last byte, the character is the one with the bits that were read. -/
theorem decodeTail_zero {acc n : Nat} (h : acc = n) (low high : Nat) (rest : List UInt8) :
    decodeTail acc 0 low high rest = (Char.ofNat n, rest) := by
  rw [decodeTail.eq_def, h]

/-! ### First bytes -/

namespace Lead

theorem ofByte?_two {n : Nat} (h : 2 ≤ n) (h' : n < 32) :
    ofByte? (n + 0xC0) = some ⟨1, 0x80, 0xBF, n⟩ := by
  rw [ofByte?, if_pos (by omega), Nat.add_sub_cancel]

/-- The bounds of the second of three bytes exclude numbers that two bytes can carry, and
surrogates. -/
theorem ofByte?_three {n m : Nat} (hm : m < 64) (hlong : 0x20 ≤ 64 * n + m)
    (hplain : 64 * n + m < 0x360 ∨ 0x380 ≤ 64 * n + m) (hn : n < 16) :
    ∃ low high, ofByte? (n + 0xE0) = some ⟨2, low, high, n⟩ ∧ low ≤ m + 0x80
      ∧ m + 0x80 ≤ high := by
  rw [ofByte?, if_neg (by omega)]
  by_cases hfirst : n = 0
  · subst hfirst
    exact ⟨0xA0, 0xBF, rfl, by omega, by omega⟩
  rw [if_neg (by omega)]
  by_cases hsurrogate : n = 13
  · subst hsurrogate
    exact ⟨0x80, 0x9F, rfl, by omega, by omega⟩
  rw [if_neg (by omega), if_pos (by omega), Nat.add_sub_cancel]
  exact ⟨0x80, 0xBF, rfl, by omega, by omega⟩

/-- The bounds of the second of four bytes exclude numbers that three bytes can carry, and those
that are no code points. -/
theorem ofByte?_four {n m : Nat} (hm : m < 64) (hlong : 0x10 ≤ 64 * n + m)
    (hpoint : 64 * n + m < 0x110) :
    ∃ low high, ofByte? (n + 0xF0) = some ⟨3, low, high, n⟩ ∧ low ≤ m + 0x80
      ∧ m + 0x80 ≤ high := by
  rw [ofByte?, if_neg (by omega), if_neg (by omega), if_neg (by omega), if_neg (by omega)]
  by_cases hfirst : n = 0
  · subst hfirst
    exact ⟨0x90, 0xBF, rfl, by omega, by omega⟩
  rw [if_neg (by omega)]
  by_cases hlast : n = 4
  · subst hlast
    exact ⟨0x80, 0x8F, rfl, by omega, by omega⟩
  rw [if_pos (by omega), Nat.add_sub_cancel]
  exact ⟨0x80, 0xBF, rfl, by omega, by omega⟩

theorem le_of_ofByte? {b : Nat} {lead : Lead} (h : ofByte? b = some lead) : 0x80 ≤ b := by
  rcases Nat.lt_or_ge b 0x80 with hb | hb
  · rw [ofByte?, if_neg (by omega), if_neg (by omega), if_neg (by omega), if_neg (by omega),
      if_neg (by omega), if_neg (by omega), if_neg (by omega)] at h
    cases h
  · exact hb

end Lead

/-- A longer character is what its first byte announces. -/
theorem decodeChar_of_lead {n more low high bits : Nat} (hn : n < 256)
    (h : Lead.ofByte? n = some ⟨more, low, high, bits⟩) (rest : List UInt8) :
    decodeChar (UInt8.ofNat n) rest = decodeTail bits more low high rest := by
  have hbyte : (UInt8.ofNat n).toNat = n := by
    rw [UInt8.toNat_ofNat']
    omega
  have hlong := Lead.le_of_ofByte? h
  rw [decodeChar, hbyte, if_neg (by omega), h]

/-! ### Characters -/

theorem decodeChar_one {n : Nat} (h : n < 0x80) (rest : List UInt8) :
    decodeChar (UInt8.ofNat n) rest = (Char.ofNat n, rest) := by
  have hbyte : (UInt8.ofNat n).toNat = n := by
    rw [UInt8.toNat_ofNat']
    omega
  rw [decodeChar, hbyte, if_pos h]

theorem decodeChar_two {n : Nat} (h : 0x80 ≤ n) (h' : n < 0x800) (rest : List UInt8) :
    decodeChar (UInt8.ofNat (n / 64 % 0x20 + 0xC0)) (continuation n :: rest)
      = (Char.ofNat n, rest) := by
  have hlead := Lead.ofByte?_two (n := n / 64 % 0x20) (by omega) (by omega)
  rw [decodeChar_of_lead (by omega) hlead, decodeTail_continuation_any]
  exact decodeTail_zero (by omega) _ _ rest

theorem decodeChar_three {n : Nat} (h : 0x800 ≤ n) (h' : n < 0x10000)
    (hplain : n < 0xD800 ∨ 0xDFFF < n) (rest : List UInt8) :
    decodeChar (UInt8.ofNat (n / 4096 % 0x10 + 0xE0))
      (continuation (n / 64) :: continuation n :: rest) = (Char.ofNat n, rest) := by
  obtain ⟨low, high, hlead, hlow, hhigh⟩ := Lead.ofByte?_three (n := n / 4096 % 0x10)
    (m := n / 64 % 64) (by omega) (by omega) (by omega) (by omega)
  rw [decodeChar_of_lead (by omega) hlead, decodeTail_continuation _ _ _ hlow hhigh,
    decodeTail_continuation_any]
  exact decodeTail_zero (by omega) _ _ rest

theorem decodeChar_four {n : Nat} (h : 0x10000 ≤ n) (h' : n < 0x110000) (rest : List UInt8) :
    decodeChar (UInt8.ofNat (n / 262144 % 0x08 + 0xF0))
      (continuation (n / 4096) :: continuation (n / 64) :: continuation n :: rest)
      = (Char.ofNat n, rest) := by
  obtain ⟨low, high, hlead, hlow, hhigh⟩ := Lead.ofByte?_four (n := n / 262144 % 0x08)
    (m := n / 4096 % 64) (by omega) (by omega) (by omega)
  rw [decodeChar_of_lead (by omega) hlead, decodeTail_continuation _ _ _ hlow hhigh,
    decodeTail_continuation_any, decodeTail_continuation_any]
  exact decodeTail_zero (by omega) _ _ rest

/-- **A character is read back** from its bytes, whatever comes after them. -/
theorem decodeChar_utf8EncodeChar (c : Char) : ∃ b bs, String.utf8EncodeChar c = b :: bs
    ∧ ∀ rest, decodeChar b (bs ++ rest) = (c, rest) := by
  have hvalid : c.toNat < 0xD800 ∨ 0xDFFF < c.toNat ∧ c.toNat < 0x110000 := c.valid
  have hcode : c.val.toNat = c.toNat := rfl
  rw [String.utf8EncodeChar, hcode]
  -- one case for each number of bytes
  split
  · refine ⟨_, _, rfl, fun rest => ?_⟩
    exact (decodeChar_one (by omega) rest).trans (by rw [Char.ofNat_toNat])
  split
  · refine ⟨_, _, rfl, fun rest => ?_⟩
    exact (decodeChar_two (by omega) (by omega) rest).trans (by rw [Char.ofNat_toNat])
  split
  · refine ⟨_, _, rfl, fun rest => ?_⟩
    exact (decodeChar_three (by omega) (by omega) (by omega) rest).trans (by rw [Char.ofNat_toNat])
  · refine ⟨_, _, rfl, fun rest => ?_⟩
    exact (decodeChar_four (by omega) (by omega) rest).trans (by rw [Char.ofNat_toNat])

/-- **Texts are read back** from their bytes. -/
theorem decodeUtf8_encodeUtf8 (cs : List Char) : decodeUtf8 (encodeUtf8 cs) = cs := by
  induction cs with
  | nil => rw [encodeUtf8_nil, decodeUtf8]
  | cons c cs ih =>
    obtain ⟨b, bs, hbytes, hdecode⟩ := decodeChar_utf8EncodeChar c
    rw [encodeUtf8_cons, hbytes, List.cons_append, decodeUtf8, hdecode, ih]

/-- An ASCII character has a single byte. -/
theorem utf8EncodeChar_of_ascii {c : Char} (h : c.toNat < 0x80) :
    String.utf8EncodeChar c = [UInt8.ofNat c.toNat] := by
  have hcode : c.val.toNat ≤ 0x7F := Nat.le_of_lt_succ h
  rw [String.utf8EncodeChar, if_pos hcode]
  rfl

/-! ### Bytes as characters -/

theorem toNat_ofNat_byte (b : UInt8) : (Char.ofNat b.toNat).toNat = b.toNat := by
  have hvalid : b.toNat.isValidChar := .inl (Nat.lt_trans b.toNat_lt (by decide))
  rw [Char.ofNat, dif_pos hvalid]
  rfl

/-! ### Hexadecimal digits -/

theorem hexDigit_lt {n : Nat} (h : n < 16) : hexDigit n < 0x80 := by
  rw [hexDigit]
  split <;> omega

theorem hexValue?_hexDigit {n : Nat} (h : n < 16) : hexValue? (hexDigit n) = some n := by
  rw [hexDigit]
  split
  · rw [hexValue?, if_pos (by omega), Nat.add_sub_cancel_left]
  · rw [hexValue?, if_neg (by omega), if_pos (by omega)]
    congr 1
    omega

/-! ### Escapes -/

/-- A byte that is no percent sign stands for itself. -/
theorem percentDecode_cons {b : UInt8} (h : b ≠ 0x25) (bs : List UInt8) :
    percentDecode (b :: bs) = b :: percentDecode bs := by
  match bs with
  | [] => rfl
  | [_] => rfl
  | _ :: _ :: _ => rw [percentDecode, beq_false_of_ne h]

/-- **An escape is resolved**: a percent sign and the two hexadecimal digits of a byte stand for
that byte. -/
theorem percentDecode_escape (b : UInt8) (bs : List UInt8) :
    percentDecode (0x25 :: UInt8.ofNat (hexDigit (b.toNat / 16))
        :: UInt8.ofNat (hexDigit (b.toNat % 16)) :: bs) = b :: percentDecode bs := by
  have hbyte : b.toNat < 256 := b.toNat_lt
  have hdigit : ∀ {n : Nat}, n < 16 → hexValue? (UInt8.ofNat (hexDigit n)).toNat = some n := by
    intro n hn
    have hlt := hexDigit_lt hn
    rw [UInt8.toNat_ofNat', Nat.mod_eq_of_lt (by omega), hexValue?_hexDigit hn]
  rw [percentDecode, beq_self_eq_true, hdigit (by omega), hdigit (by omega)]
  simp only [Nat.div_add_mod, UInt8.ofNat_toNat]

end Datacube
