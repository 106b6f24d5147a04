import Datacube.Memory.Execution
import Datacube.Proofs.Octets

/-!
# The order of keys

The rows of a result are sorted by their keys, which are lists of texts.  Texts are compared by
their characters, and this is the order in which their bytes compare: the first byte of a character
is the greater the more bytes it has, and bytes of equally long characters begin with the most
significant bits.

## Main definitions

* `OctetsBefore`, `KeyBefore` — the orders of texts and of keys by bytes.

## Main results

* `pairwise_sortBy` — sorting by a total order leads to a sorted list.
* `octetsBefore_of_lt` — **texts are in the order of their bytes**.
* `MemoryCube.pairwise_keyBefore` — **sorted keys increase strictly**, if none is repeated.
-/

namespace Datacube

/-! ### Sorted lists -/

section

variable {α : Type} {le : α → α → Bool} (htotal : ∀ a b, le a b = true ∨ le b a = true)
  (htrans : ∀ a b c, le a b = true → le b c = true → le a c = true)

include htotal htrans

private theorem pairwise_insertBy {a : α} {as : List α}
    (h : as.Pairwise fun a b => le a b = true) :
    (insertBy le a as).Pairwise fun a b => le a b = true := by
  induction as with
  | nil => exact List.pairwise_singleton _ a
  | cons b bs ih =>
    obtain ⟨hb, hbs⟩ := List.pairwise_cons.1 h
    rw [insertBy]
    split
    · rename_i hab
      refine List.pairwise_cons.2 ⟨List.forall_mem_cons.2 ⟨hab, fun c hc => ?_⟩, h⟩
      exact htrans a b c hab (hb c hc)
    · rename_i hab
      refine List.pairwise_cons.2 ⟨fun c hc => ?_, ih hbs⟩
      rcases mem_insertBy.1 hc with rfl | hc
      · exact (htotal _ _).resolve_left hab
      · exact hb c hc

/-- **Sorting by a total order** leads to a sorted list. -/
theorem pairwise_sortBy (as : List α) : (sortBy le as).Pairwise fun a b => le a b = true := by
  induction as with
  | nil => exact .nil
  | cons a as ih => exact pairwise_insertBy htotal htrans ih

end

/-! ### Bytes of texts -/

/-- Whether one sequence of bytes comes before another one. -/
def BytesBefore : List UInt8 → List UInt8 → Prop := List.Lex fun b b' => b.toNat < b'.toNat

/-- Whether the bytes of a text come before those of another one. -/
def OctetsBefore (s t : String) : Prop := BytesBefore (encodeUtf8 s.toList) (encodeUtf8 t.toList)

/-- Whether a key comes before another one, by the bytes of their texts. -/
def KeyBefore : List String → List String → Prop := List.Lex OctetsBefore

namespace BytesBefore

/-- Sequences compare as their first bytes do, or as what follows if these are the same. -/
theorem cons_of {b b' : UInt8} {bs bs' : List UInt8}
    (h : b.toNat < b'.toNat ∨ b = b' ∧ BytesBefore bs bs') : BytesBefore (b :: bs) (b' :: bs') :=
  List.cons_lex_cons_iff.2 h

theorem append_left (bs : List UInt8) {cs cs' : List UInt8} (h : BytesBefore cs cs') :
    BytesBefore (bs ++ cs) (bs ++ cs') := by
  induction bs with
  | nil => exact h
  | cons b bs ih => exact cons_of (.inr ⟨rfl, ih⟩)

/-- The last byte of a character decides if the bits before it are the same. -/
theorem continuation_last {m n : Nat} (h : m < n) (hsame : m / 64 = n / 64) (bs bs' : List UInt8) :
    BytesBefore (continuation m :: bs) (continuation n :: bs') := by
  refine cons_of (.inl ?_)
  rw [toNat_continuation, toNat_continuation]
  omega

/-- A byte in front decides, unless the bits up to it are the same. -/
theorem continuation_front {m n : Nat} (h : m ≤ n) (hsame : m / 64 = n / 64) {bs bs' : List UInt8}
    (hrest : m = n → BytesBefore bs bs') :
    BytesBefore (continuation m :: bs) (continuation n :: bs') := by
  rcases Nat.lt_or_eq_of_le h with hlt | rfl
  · exact continuation_last hlt hsame bs bs'
  · exact cons_of (.inr ⟨rfl, hrest rfl⟩)

/-- The first byte of a character decides, unless the bits up to it are the same. -/
theorem lead {x y : Nat} (hle : x ≤ y) (hy : y < 256) {bs bs' : List UInt8}
    (hrest : x = y → BytesBefore bs bs') :
    BytesBefore (UInt8.ofNat x :: bs) (UInt8.ofNat y :: bs') := by
  rcases Nat.lt_or_eq_of_le hle with hlt | rfl
  · refine cons_of (.inl ?_)
    rw [UInt8.toNat_ofNat', UInt8.toNat_ofNat']
    omega
  · exact cons_of (.inr ⟨rfl, hrest rfl⟩)

end BytesBefore

/-- The bytes of a character, by their number. -/
theorem utf8EncodeChar_cases (c : Char) :
    (c.toNat < 0x80 ∧ String.utf8EncodeChar c = [UInt8.ofNat c.toNat])
      ∨ (0x80 ≤ c.toNat ∧ c.toNat < 0x800 ∧ String.utf8EncodeChar c
        = [UInt8.ofNat (c.toNat / 64 % 0x20 + 0xC0), continuation c.toNat])
      ∨ (0x800 ≤ c.toNat ∧ c.toNat < 0x10000 ∧ String.utf8EncodeChar c
        = [UInt8.ofNat (c.toNat / 4096 % 0x10 + 0xE0), continuation (c.toNat / 64),
          continuation c.toNat])
      ∨ (0x10000 ≤ c.toNat ∧ c.toNat < 0x110000 ∧ String.utf8EncodeChar c
        = [UInt8.ofNat (c.toNat / 262144 % 0x08 + 0xF0), continuation (c.toNat / 4096),
          continuation (c.toNat / 64), continuation c.toNat]) := by
  have hvalid : c.toNat < 0xD800 ∨ 0xDFFF < c.toNat ∧ c.toNat < 0x110000 := c.valid
  have hcode : c.val.toNat = c.toNat := rfl
  rw [String.utf8EncodeChar, hcode]
  split
  · exact .inl ⟨by omega, rfl⟩
  split
  · exact .inr (.inl ⟨by omega, by omega, rfl⟩)
  split
  · exact .inr (.inr (.inl ⟨by omega, by omega, rfl⟩))
  · exact .inr (.inr (.inr ⟨by omega, by omega, rfl⟩))

open BytesBefore in
/-- **A smaller character has smaller bytes**, whatever comes after them. -/
theorem bytesBefore_utf8EncodeChar {c d : Char} (h : c < d) (bs bs' : List UInt8) :
    BytesBefore (String.utf8EncodeChar c ++ bs) (String.utf8EncodeChar d ++ bs') := by
  have hlt : c.toNat < d.toNat := h
  rcases utf8EncodeChar_cases c with ⟨hc, hbytes⟩ | ⟨hc, hc', hbytes⟩ | ⟨hc, hc', hbytes⟩
    | ⟨hc, hc', hbytes⟩
  all_goals
    rcases utf8EncodeChar_cases d with ⟨hd, hbytes'⟩ | ⟨hd, hd', hbytes'⟩ | ⟨hd, hd', hbytes'⟩
      | ⟨hd, hd', hbytes'⟩
    all_goals
      rw [hbytes, hbytes']
      refine lead (by omega) (by omega) fun heq => ?_
  -- the first bytes are the same only if there are equally many
  any_goals omega
  · exact continuation_last hlt (by omega) _ _
  · exact continuation_front (by omega) (by omega) fun hfront => continuation_last hlt hfront _ _
  · exact continuation_front (by omega) (by omega) fun hfront =>
      continuation_front (by omega) (by omega) fun hnext => continuation_last hlt hnext _ _

/-- **Texts are in the order of their bytes.** -/
theorem octetsBefore_of_lt {s t : String} (h : s < t) : OctetsBefore s t := by
  have hbytes : ∀ {cs ds : List Char}, List.Lex (fun c d : Char => c < d) cs ds →
      BytesBefore (encodeUtf8 cs) (encodeUtf8 ds) := by
    intro cs ds hlex
    induction hlex with
    | @nil c cs =>
      obtain ⟨b, bs, hbytes, -⟩ := decodeChar_utf8EncodeChar c
      rw [encodeUtf8_nil, encodeUtf8_cons, hbytes]
      exact .nil
    | rel hlt => exact bytesBefore_utf8EncodeChar hlt _ _
    | @cons c cs ds _ ih => exact ih.append_left (String.utf8EncodeChar c)
  exact hbytes h

theorem keyBefore_of_lt {k l : List String} (h : k < l) : KeyBefore k l := by
  have hlex : List.Lex (fun s t : String => s < t) k l := h
  clear h
  induction hlex with
  | nil => exact .nil
  | rel hlt => exact .rel (octetsBefore_of_lt hlt)
  | cons _ ih => exact .cons ih

/-! ### Keys of groups -/

namespace MemoryCube

theorem keyLe_iff {k l : List String} : keyLe k l = true ↔ ¬ l < k := by
  rw [keyLe, Bool.not_eq_true', decide_eq_false_iff_not]

theorem keyLe_total (k l : List String) : keyLe k l = true ∨ keyLe l k = true := by
  rw [keyLe_iff, keyLe_iff]
  exact List.le_total k l

theorem keyLe_trans (j k l : List String) (h : keyLe j k = true) (h' : keyLe k l = true) :
    keyLe j l = true := by
  rw [keyLe_iff] at h h' ⊢
  exact List.le_trans h h'

theorem keyBefore_of_keyLe {k l : List String} (h : keyLe k l = true) (hne : k ≠ l) :
    KeyBefore k l := by
  rw [keyLe_iff] at h
  exact keyBefore_of_lt ((List.le_iff_lt_or_eq.1 h).resolve_right hne)

/-- **Sorted keys increase strictly** by the bytes of their texts, if none of them is repeated. -/
theorem pairwise_keyBefore {keys : List (List String)} (h : (sortBy keyLe keys).Nodup) :
    (sortBy keyLe keys).Pairwise KeyBefore :=
  (pairwise_sortBy keyLe_total keyLe_trans keys).imp₂ (fun _ _ => keyBefore_of_keyLe) h

end MemoryCube

end Datacube
