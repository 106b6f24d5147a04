import Datacube.Text.Count
import Datacube.UniqueName.Basic
import Mathlib.Data.List.Infix

/-!
# Texts that are read back

Names and counts are written into texts and read from them again.  What is read is what was
written: blanks around a text do not belong to it, and quoting marks the end of every segment.

## Main results

* `trimChars_trimChars` — nothing is trimmed twice.
* `readCount?_repr` — **counts are read back**.
* `quoteChars_append_inj` — **quoted segments can be told apart**, whatever comes after them.
-/

namespace Datacube

/-! ### Blanks -/

/-- The code points of the ASCII letters and digits. -/
theorem toNat_of_isAlphanum {c : Char} (h : c.isAlphanum) :
    48 ≤ c.toNat ∧ c.toNat ≤ 57 ∨ 65 ≤ c.toNat ∧ c.toNat ≤ 90 ∨ 97 ≤ c.toNat ∧ c.toNat ≤ 122 := by
  have hranges : (decide (65 ≤ c.val ∧ c.val ≤ 90)
      || decide (97 ≤ c.val) && decide (c.val ≤ 122) || c.isDigit) = true := h
  simp only [Bool.or_eq_true, Bool.and_eq_true, decide_eq_true_eq, Char.isDigit_iff_toNat,
    UInt32.le_iff_toNat_le] at hranges
  rcases hranges with (h | h) | h
  · exact .inr (.inl h)
  · exact .inr (.inr h)
  · exact .inl h

/-- No letter and no digit is a blank. -/
theorem isBlank_of_isAlphanum {c : Char} (h : c.isAlphanum) : isBlank c = false := by
  have hcode := toNat_of_isAlphanum h
  rw [isBlank, List.contains_eq_mem, decide_eq_false_iff_not]
  simp only [blankCodePoints, List.mem_cons, List.not_mem_nil, or_false, not_or]
  omega

/-- Nothing is trimmed from a text that neither begins nor ends with a blank. -/
theorem trimChars_of_ends {cs : List Char} (hhead : ∀ c ∈ cs.head?, isBlank c = false)
    (hlast : ∀ c ∈ cs.getLast?, isBlank c = false) : trimChars cs = cs := by
  have hfront : ∀ {cs : List Char}, (∀ c ∈ cs.head?, isBlank c = false) →
      cs.dropWhile isBlank = cs := by
    rintro (_ | ⟨c, cs⟩) h
    · rfl
    · exact List.dropWhile_cons_of_neg (by rw [h c rfl]; decide)
  -- the back is trimmed as the front of the reversed text
  rw [trimChars, trimFront, hfront hhead, trimBack, hfront, List.reverse_reverse]
  rwa [List.head?_reverse]

/-- Nothing is left to be trimmed in front. -/
theorem isBlank_of_mem_head?_trimFront {cs : List Char} {c : Char}
    (h : c ∈ (trimFront cs).head?) : isBlank c = false := by
  have hnot := List.head?_dropWhile_not isBlank cs
  rw [← trimFront, Option.mem_def.1 h] at hnot
  simpa using hnot

/-- Nothing is left to be trimmed at the end. -/
theorem isBlank_of_mem_getLast?_trimBack {cs : List Char} {c : Char}
    (h : c ∈ (trimBack cs).getLast?) : isBlank c = false := by
  rw [trimBack, List.getLast?_reverse] at h
  exact isBlank_of_mem_head?_trimFront h

theorem trimBack_isPrefix (cs : List Char) : trimBack cs <+: cs := by
  rw [← List.reverse_suffix, trimBack, List.reverse_reverse]
  exact List.dropWhile_suffix isBlank

theorem length_trimChars_le (cs : List Char) : (trimChars cs).length ≤ cs.length :=
  (trimBack_isPrefix _).length_le.trans (List.dropWhile_suffix isBlank).length_le

theorem trimChars_trimChars (cs : List Char) : trimChars (trimChars cs) = trimChars cs := by
  refine trimChars_of_ends ?_ ?_
  · intro c hc
    -- what is trimmed at the end leaves the front as it is
    have hmem : c ∈ (trimFront cs).head? := by
      obtain ⟨rest, hrest⟩ := trimBack_isPrefix (trimFront cs)
      rw [← hrest, List.head?_append, ← trimChars, Option.mem_def.1 hc]
      rfl
    exact isBlank_of_mem_head?_trimFront hmem
  · intro c hc
    exact isBlank_of_mem_getLast?_trimBack hc

/-! ### Counts -/

theorem readDigitsFrom?_append (acc : Nat) (cs ds : List Char) :
    readDigitsFrom? acc (cs ++ ds) = (readDigitsFrom? acc cs).bind (readDigitsFrom? · ds) := by
  induction cs generalizing acc with
  | nil => rfl
  | cons c cs ih =>
    rw [List.cons_append, readDigitsFrom?, readDigitsFrom?]
    cases digitValue? c with
    | none => rfl
    | some d => exact ih _

private theorem digitValue?_digitChar {d : Nat} (h : d < 10) :
    digitValue? d.digitChar = some d := by
  revert h
  exact (by decide : ∀ d : Nat, d < 10 → digitValue? d.digitChar = some d) d

private theorem readDigitsFrom?_digit {acc d : Nat} (h : d < 10) :
    readDigitsFrom? acc [d.digitChar] = some (10 * acc + d) := by
  rw [readDigitsFrom?, digitValue?_digitChar h]
  rfl

theorem readDigitsFrom?_toDigits (n : Nat) : readDigitsFrom? 0 (Nat.toDigits 10 n) = some n := by
  induction n using Nat.strongRecOn with
  | ind n ih =>
    rw [Nat.toDigits_eq_if (by decide)]
    split
    · rename_i h
      rw [readDigitsFrom?_digit h, Nat.mul_zero, Nat.zero_add]
    · rename_i h
      rw [readDigitsFrom?_append, ih (n / 10) (by omega), Option.bind_some,
        readDigitsFrom?_digit (Nat.mod_lt n (by decide)), Nat.div_add_mod]

/-- **Counts are read back**: from the digits of a number, that number is read if it is a
count at all. -/
theorem readCount?_repr (n : Nat) :
    readCount? (trim n.repr) = if n < countBound then some n else none := by
  have hdigit : ∀ c ∈ Nat.toDigits 10 n, c.isDigit := fun c hc =>
    Nat.isDigit_of_mem_toDigits (by decide) (by decide) hc
  have htrim : (trim n.repr).toList = Nat.toDigits 10 n := by
    rw [toList_trim, Nat.toList_repr]
    have hblank : ∀ c ∈ Nat.toDigits 10 n, isBlank c = false := fun c hc =>
      isBlank_of_isAlphanum (by simp [Char.isAlphanum, hdigit c hc])
    apply trimChars_of_ends
    · intro c hc
      exact hblank c (List.mem_of_head? hc)
    · intro c hc
      exact hblank c (List.mem_of_getLast? hc)
  -- a sign in front of the digits would be skipped
  have hsign : ∀ cs, Nat.toDigits 10 n ≠ '+' :: cs := by
    intro cs h
    have hplus := hdigit '+' (h ▸ List.mem_cons_self)
    exact absurd hplus (by decide)
  have hread : readDigits? (Nat.toDigits 10 n) = some n := by
    rw [← readDigitsFrom?_toDigits n]
    cases h : Nat.toDigits 10 n with
    | nil => exact absurd h Nat.toDigits_ne_nil
    | cons => rfl
  have hdigits : readCount? (trim n.repr)
      = (readDigits? (Nat.toDigits 10 n)).filter (· < countBound) := by
    rw [readCount?, htrim]
    split
    · rename_i h
      exact absurd h (hsign _)
    · rfl
  rw [hdigits, hread, Option.filter_some]
  simp only [decide_eq_true_eq]

/-! ### Quoted segments -/

/-- The closing bracket of a segment is the first one that is not written twice. -/
private theorem doubled_append_inj {a b x y : List Char} (hx : x.head? ≠ some ']')
    (hy : y.head? ≠ some ']') (h : doubled ']' a ++ ']' :: x = doubled ']' b ++ ']' :: y) :
    a = b ∧ x = y := by
  induction a generalizing b with
  | nil =>
    cases b with
    | nil => exact ⟨rfl, (List.cons.inj h).2⟩
    | cons d b =>
      by_cases hd : d = ']'
      · subst hd
        rw [doubled_cons_self] at h
        exact absurd (by rw [(List.cons.inj h).2]; rfl) hx
      · rw [doubled_cons_of_ne hd] at h
        exact absurd (List.cons.inj h).1.symm hd
  | cons c a ih =>
    cases b with
    | nil =>
      by_cases hc : c = ']'
      · subst hc
        rw [doubled_cons_self] at h
        exact absurd (by rw [← (List.cons.inj h).2]; rfl) hy
      · rw [doubled_cons_of_ne hc] at h
        exact absurd (List.cons.inj h).1 hc
    | cons d b =>
      by_cases hc : c = ']' <;> by_cases hd : d = ']'
      · subst hc hd
        rw [doubled_cons_self, doubled_cons_self] at h
        obtain ⟨hab, hxy⟩ := ih (List.cons.inj (List.cons.inj h).2).2
        exact ⟨by rw [hab], hxy⟩
      · subst hc
        rw [doubled_cons_self, doubled_cons_of_ne hd] at h
        exact absurd (List.cons.inj h).1.symm hd
      · subst hd
        rw [doubled_cons_of_ne hc, doubled_cons_self] at h
        exact absurd (List.cons.inj h).1 hc
      · rw [doubled_cons_of_ne hc, doubled_cons_of_ne hd] at h
        obtain ⟨hcd, h⟩ := List.cons.inj h
        obtain ⟨hab, hxy⟩ := ih h
        exact ⟨by rw [hcd, hab], hxy⟩

/-- **Quoted segments can be told apart**: a text that begins with a segment in brackets begins
with one only. -/
theorem quoteChars_append_inj {a b x y : List Char} (hx : x.head? ≠ some ']')
    (hy : y.head? ≠ some ']') (h : quoteChars a ++ x = quoteChars b ++ y) : a = b ∧ x = y := by
  refine doubled_append_inj hx hy ?_
  simpa [quoteChars] using h

/-- Different segments are quoted differently. -/
theorem quoteSegment_inj {s t : String} (h : quoteSegment s = quoteSegment t) : s = t := by
  have h' := String.ofList_injective h
  refine String.toList_inj.1 (quoteChars_append_inj (x := []) (y := []) nofun nofun ?_).1
  simpa using h'

/-- Unique names of two segments can be told apart. -/
theorem quoteSegment_dot_inj {s t s' t' : String}
    (h : quoteSegment s ++ "." ++ quoteSegment t = quoteSegment s' ++ "." ++ quoteSegment t') :
    s = s' ∧ t = t' := by
  have h' : quoteChars s.toList ++ '.' :: quoteChars t.toList
      = quoteChars s'.toList ++ '.' :: quoteChars t'.toList := by
    simpa [quoteSegment] using congrArg String.toList h
  obtain ⟨hs, ht⟩ := quoteChars_append_inj (by simp) (by simp) h'
  refine ⟨String.toList_inj.1 hs, quoteSegment_inj ?_⟩
  rw [quoteSegment, quoteSegment, (List.cons.inj ht).2]

/-- Doubling a character makes no text shorter. -/
theorem length_le_doubled (q : Char) (cs : List Char) : cs.length ≤ (doubled q cs).length := by
  induction cs with
  | nil => exact Nat.le_refl _
  | cons c cs ih =>
    by_cases hc : c = q
    · rw [hc, doubled_cons_self, List.length_cons, List.length_cons, List.length_cons]
      omega
    · rw [doubled_cons_of_ne hc, List.length_cons, List.length_cons]
      omega

/-- A quoted segment is not the segment itself, as it has brackets around it. -/
theorem quoteSegment_ne_self (s : String) : quoteSegment s ≠ s := by
  intro h
  have hlength := congrArg List.length (congrArg String.toList h)
  have hdoubled := length_le_doubled ']' s.toList
  simp only [quoteSegment, quoteChars, String.toList_ofList, List.length_cons, List.length_append]
    at hlength
  omega

/-- A quoted segment is not empty. -/
theorem quoteSegment_ne_empty (s : String) : quoteSegment s ≠ "" := by
  intro h
  have hchars := congrArg String.toList h
  simp [quoteSegment, quoteChars] at hchars

/-- A unique name of two segments is not empty. -/
theorem quoteSegment_dot_ne_empty (s t : String) :
    quoteSegment s ++ "." ++ quoteSegment t ≠ "" := by
  intro h
  have hchars := congrArg String.toList h
  simp at hchars

end Datacube
