import Datacube.Proofs.Octets
import Datacube.Proofs.UniqueNames
import Datacube.UniqueName.Uri

/-!
# Names of resources are read back

A name that a URI was encoded as has letters and digits only, so it is a segment like any other.
Every three `X` in it are the mark of an escape, since no other `X` occurs, and what the marks and
the other letters and digits stand for are the bytes of the URI.

## Main results

* `isAlphanum_of_mem_encodeUri` — encoded names have letters and digits only.
* `percentDecode_encodeByte` — **the escape of a byte** is read back.
* `decodeName_encodeUri` — **an encoded name is read back**.
* `canonicalName_uniqueNameOfUri` — the canonical name of a resource is its URI.
* `encodeUri_reversible` — all of this together.
-/

namespace Datacube

/-! ### Letters and digits -/

theorem isPlainByte_iff {b : UInt8} : isPlainByte b = true ↔
    (Char.ofNat b.toNat).isAlphanum = true ∧ Char.ofNat b.toNat ≠ 'X' := by
  simp [isPlainByte]

theorem toNat_of_isPlainByte {b : UInt8} (h : isPlainByte b = true) :
    b.toNat < 0x80 ∧ b ≠ 0x25 := by
  have hcode := toNat_of_isAlphanum (isPlainByte_iff.1 h).1
  rw [toNat_ofNat_byte] at hcode
  constructor
  · omega
  · rintro rfl
    revert hcode
    decide

/-- A hexadecimal digit is a digit or a letter that marks nothing. -/
theorem isAlphanum_hexDigit : ∀ n < 16, (Char.ofNat (hexDigit n)).isAlphanum = true
    ∧ Char.ofNat (hexDigit n) ≠ 'X' ∧ (Char.ofNat (hexDigit n)).toNat = hexDigit n := by
  decide

theorem div_mod_lt (b : UInt8) : b.toNat / 16 < 16 ∧ b.toNat % 16 < 16 := by
  have hb : b.toNat < 256 := b.toNat_lt
  omega

theorem isAlphanum_of_mem_encodeByte {b : UInt8} {c : Char} (h : c ∈ encodeByte b) :
    c.isAlphanum = true := by
  rw [encodeByte] at h
  split at h
  · rename_i hplain
    rw [List.mem_singleton.1 h]
    exact (isPlainByte_iff.1 hplain).1
  · simp only [hexByte, List.mem_cons, List.not_mem_nil, or_false] at h
    rcases h with rfl | rfl | rfl | rfl | rfl
    · decide
    · decide
    · decide
    · exact (isAlphanum_hexDigit _ (div_mod_lt b).1).1
    · exact (isAlphanum_hexDigit _ (div_mod_lt b).2).1

/-- **Encoded names have letters and digits only.** -/
theorem isAlphanum_of_mem_encodeUri {uri : String} {c : Char} (h : c ∈ (encodeUri uri).toList) :
    c.isAlphanum = true := by
  rw [encodeUri, String.toList_ofList] at h
  obtain ⟨b, -, hc⟩ := List.mem_flatMap.1 h
  exact isAlphanum_of_mem_encodeByte hc

/-! ### Marks -/

theorem marksToPercent_cons {c : Char} (h : c ≠ 'X') (cs : List Char) :
    marksToPercent (c :: cs) = c :: marksToPercent cs := by
  rw [marksToPercent.eq_def]
  split
  · rename_i heq
    exact absurd (List.cons.inj heq).1 h
  · rename_i heq
    rw [(List.cons.inj heq).1, (List.cons.inj heq).2]
  · rename_i heq
    cases heq

theorem marksToPercent_mark (cs : List Char) :
    marksToPercent ('X' :: 'X' :: 'X' :: cs) = '%' :: marksToPercent cs := rfl

/-- **The escape of a byte is read back**, whatever comes after it. -/
theorem percentDecode_encodeByte (b : UInt8) (cs : List Char) :
    percentDecode (encodeUtf8 (marksToPercent (encodeByte b ++ cs)))
      = b :: percentDecode (encodeUtf8 (marksToPercent cs)) := by
  rw [encodeByte]
  split
  · rename_i hplain
    obtain ⟨hlt, hne⟩ := toNat_of_isPlainByte hplain
    rw [List.singleton_append, marksToPercent_cons (isPlainByte_iff.1 hplain).2, encodeUtf8_cons,
      utf8EncodeChar_of_ascii (by rwa [toNat_ofNat_byte]), toNat_ofNat_byte, UInt8.ofNat_toNat,
      List.singleton_append, percentDecode_cons hne]
  -- three marks, and then two digits, which are no marks
  · obtain ⟨-, hhigh, hhighCode⟩ := isAlphanum_hexDigit _ (div_mod_lt b).1
    obtain ⟨-, hlow, hlowCode⟩ := isAlphanum_hexDigit _ (div_mod_lt b).2
    have hascii : ∀ {n : Nat}, n < 16 → (Char.ofNat (hexDigit n)).toNat = hexDigit n →
        String.utf8EncodeChar (Char.ofNat (hexDigit n)) = [UInt8.ofNat (hexDigit n)] := by
      intro n hn hcode
      rw [utf8EncodeChar_of_ascii (by rw [hcode]; exact hexDigit_lt hn), hcode]
    have hpercent : String.utf8EncodeChar '%' = [0x25] := rfl
    rw [hexByte, List.cons_append, List.cons_append, List.cons_append, List.cons_append,
      List.singleton_append, marksToPercent_mark, marksToPercent_cons hhigh,
      marksToPercent_cons hlow, encodeUtf8_cons, encodeUtf8_cons, encodeUtf8_cons, hpercent,
      hascii (div_mod_lt b).1 hhighCode, hascii (div_mod_lt b).2 hlowCode]
    exact percentDecode_escape b _

/-! ### Names -/

/-- **An encoded name is read back.** -/
theorem decodeName_encodeUri (uri : String) : decodeName (encodeUri uri) = uri := by
  have hbytes : ∀ bs : List UInt8,
      percentDecode (encodeUtf8 (marksToPercent (bs.flatMap encodeByte))) = bs := by
    intro bs
    induction bs with
    | nil => rfl
    | cons b bs ih => rw [List.flatMap_cons, percentDecode_encodeByte, ih]
  rw [decodeName, encodeUri, String.toList_ofList, hbytes, decodeUtf8_encodeUtf8,
    String.ofList_toList]

/-- An encoded name has no blanks around it. -/
theorem spelled_encodeUri (uri : String) : Spelled (encodeUri uri) := by
  have hblank : ∀ c ∈ (encodeUri uri).toList, isBlank c = false := fun c hc =>
    isBlank_of_isAlphanum (isAlphanum_of_mem_encodeUri hc)
  have htrim : trimChars (encodeUri uri).toList = (encodeUri uri).toList :=
    trimChars_of_ends (fun c hc => hblank c (List.mem_of_head? hc))
      (fun c hc => hblank c (List.mem_of_getLast? hc))
  rw [Spelled, trim, htrim, String.ofList_toList]

/-- The unique name of a resource is an encoded name in brackets: no bracket in it has to be written
twice. -/
theorem uniqueNameOfUri_eq (uri : String) :
    uniqueNameOfUri uri = joinSegments [encodeUri uri] := by
  have hfree : ']' ∉ (encodeUri uri).toList := fun hmem =>
    absurd (isAlphanum_of_mem_encodeUri hmem) (by decide)
  rw [← String.toList_inj]
  simp [uniqueNameOfUri, joinSegments, quoteSegment, quoteChars, doubled_of_not_mem hfree]

/-- **The canonical name of a resource is its URI.** -/
theorem canonicalName_uniqueNameOfUri (uri : String) : canonicalName (uniqueNameOfUri uri) = uri := by
  rw [canonicalName, uniqueNameOfUri_eq, splitName_joinSegments (List.cons_ne_nil _ _),
    List.map_singleton, spelled_encodeUri, List.map_singleton, decodeName_encodeUri,
    String.intercalate_singleton]

/-- **URIs are encoded reversibly**: encoded names have ASCII letters and digits only, they are read
back, and so are the unique names that they make up.  So different resources have different names,
and different canonical names too. -/
theorem encodeUri_reversible (uri other : String) :
    (encodeUri uri).toList.all Char.isAlphanum = true
      ∧ decodeName (encodeUri uri) = uri
      ∧ canonicalName (uniqueNameOfUri uri) = uri
      ∧ (encodeUri uri = encodeUri other ↔ uri = other)
      ∧ (canonicalName (uniqueNameOfUri uri) = canonicalName (uniqueNameOfUri other)
        ↔ uri = other) := by
  refine ⟨List.all_eq_true.2 fun c => isAlphanum_of_mem_encodeUri, decodeName_encodeUri uri,
    canonicalName_uniqueNameOfUri uri, ?_, ?_⟩
  · constructor
    · intro h
      rw [← decodeName_encodeUri uri, h, decodeName_encodeUri]
    · exact congrArg encodeUri
  · rw [canonicalName_uniqueNameOfUri, canonicalName_uniqueNameOfUri]

end Datacube
