import Datacube.Cells.Display
import Datacube.Proofs.Texts
import Mathlib.Computability.Language

/-!
# Two grammars of numbers

Values are displayed as numbers if they match a pattern, and then read by another grammar.  Both are
written down here as languages, and the programs decide them.  The pattern counts digits of any
script, while only ASCII digits are read; and infinity and what is no number are read, but do not
match.  Over ASCII characters these are the only differences, so that what matches is read.

## Main definitions

* `oneOf`, `maybe`, `plus` — the languages from which the grammars are built.
* `numericPattern` — the pattern of displayed numbers.
* `numberGrammar` — the grammar of numbers that are read; `nonFinite` — the names in it.

## Main results

* `looksNumeric_iff` — what looks like a number matches the pattern.
* `isSome_readNumber?_iff` — what is read follows the grammar.
* `mem_numericPattern_iff_of_ascii` — **over ASCII characters**, what matches is a number that is
  read and no name.
* `display_recognises` — **the display of values** by what matches.
-/

namespace Datacube

open scoped Computability

/-! ### Languages of characters -/

/-- The texts of a single character that passes a test. -/
def oneOf (test : Char → Bool) : Language Char := {cs | ∃ c, test c = true ∧ cs = [c]}

/-- The texts of a language and the empty text. -/
def maybe (l : Language Char) : Language Char := 1 + l

/-- One or more texts of a language, one after the other. -/
def plus (l : Language Char) : Language Char := l * l∗

section

variable {test : Char → Bool} {l : Language Char} {cs : List Char}

theorem mem_oneOf : cs ∈ oneOf test ↔ ∃ c, test c = true ∧ cs = [c] := Iff.rfl

theorem mem_maybe : cs ∈ maybe l ↔ cs = [] ∨ cs ∈ l := by
  rw [maybe, Language.mem_add, Language.mem_one]

theorem mem_kstar_oneOf : cs ∈ (oneOf test)∗ ↔ ∀ c ∈ cs, test c = true := by
  rw [Language.mem_kstar]
  constructor
  · rintro ⟨texts, rfl, h⟩ c hc
    obtain ⟨text, htext, hc⟩ := List.mem_flatten.1 hc
    obtain ⟨d, hd, rfl⟩ := h text htext
    rwa [List.mem_singleton.1 hc]
  · intro h
    refine ⟨cs.map fun c => [c], ?_, ?_⟩
    · rw [← List.flatMap_def, List.flatMap_singleton']
    · intro text htext
      obtain ⟨c, hc, rfl⟩ := List.mem_map.1 htext
      exact ⟨c, h c hc, rfl⟩

theorem mem_plus_oneOf : cs ∈ plus (oneOf test) ↔ cs ≠ [] ∧ ∀ c ∈ cs, test c = true := by
  rw [plus, Language.mem_mul]
  constructor
  · rintro ⟨_, ⟨c, hc, rfl⟩, ds, hds, rfl⟩
    exact ⟨List.cons_ne_nil _ _, List.forall_mem_cons.2 ⟨hc, mem_kstar_oneOf.1 hds⟩⟩
  · rintro ⟨hne, h⟩
    obtain ⟨c, ds, rfl⟩ := List.exists_cons_of_ne_nil hne
    obtain ⟨hc, hds⟩ := List.forall_mem_cons.1 h
    exact ⟨[c], ⟨c, hc, rfl⟩, ds, mem_kstar_oneOf.2 hds, rfl⟩

end

/-! ### The grammars -/

/-- `[+-]` -/
def signMark : Language Char := oneOf fun c => c == '+' || c == '-'

/-- `\.` -/
def pointMark : Language Char := oneOf (· == '.')

/-- `[eE][+-]?\d+` -/
def exponentPart (digit : Char → Bool) : Language Char :=
  oneOf (fun c => c == 'e' || c == 'E') * (maybe signMark * plus (oneOf digit))

/-- `\d+\.?\d*|\.\d+` -/
def patternDigits (digit : Char → Bool) : Language Char :=
  plus (oneOf digit) * maybe pointMark * (oneOf digit)∗ + pointMark * plus (oneOf digit)

/-- The pattern of displayed numbers: `[+-]?(\d+\.?\d*|\.\d+)([eE][+-]?\d+)?`, with the digits of
any script. -/
def numericPattern : Language Char :=
  maybe signMark * (patternDigits isDecimalDigit * maybe (exponentPart isDecimalDigit))

/-- `Digit+ | Digit+ '.' Digit* | Digit* '.' Digit+` -/
def grammarDigits (digit : Char → Bool) : Language Char :=
  plus (oneOf digit) + plus (oneOf digit) * pointMark * (oneOf digit)∗
    + (oneOf digit)∗ * pointMark * plus (oneOf digit)

/-- `'inf' | 'infinity' | 'nan'`, in any letter case -/
def nonFinite : Language Char :=
  {cs | cs.map Char.toLower ∈ ["inf".toList, "infinity".toList, "nan".toList]}

/-- The grammar of numbers that are read: `Sign? ('inf' | 'infinity' | 'nan' | Number)`, where
`Number` is `(Digit+ | Digit+ '.' Digit* | Digit* '.' Digit+) Exp?`, with ASCII digits. -/
def numberGrammar : Language Char :=
  maybe signMark
    * (nonFinite + grammarDigits Char.isDigit * maybe (exponentPart Char.isDigit))

/-! ### Signs -/

/-- A sign in front of texts that begin with none is split off. -/
theorem mem_sign_mul_iff {l : Language Char} (h : ∀ cs, '+' :: cs ∉ l ∧ '-' :: cs ∉ l)
    {cs : List Char} : cs ∈ maybe signMark * l ↔ (splitSign cs).2 ∈ l := by
  rw [Language.mem_mul]
  constructor
  · rintro ⟨sign, hsign, ds, hds, rfl⟩
    rcases mem_maybe.1 hsign with rfl | ⟨c, hc, rfl⟩
    · rw [List.nil_append]
      unfold splitSign
      split
      · exact absurd hds (h _).1
      · exact absurd hds (h _).2
      · exact hds
    · rw [Bool.or_eq_true, beq_iff_eq, beq_iff_eq] at hc
      rcases hc with rfl | rfl <;> exact hds
  · intro hmem
    unfold splitSign at hmem
    split at hmem
    · exact ⟨['+'], mem_maybe.2 (.inr ⟨'+', rfl, rfl⟩), _, hmem, rfl⟩
    · exact ⟨['-'], mem_maybe.2 (.inr ⟨'-', rfl, rfl⟩), _, hmem, rfl⟩
    · exact ⟨[], mem_maybe.2 (.inl rfl), _, hmem, rfl⟩

theorem subset_splitSign (cs : List Char) : (splitSign cs).2 ⊆ cs := by
  unfold splitSign
  split
  · exact List.subset_cons_self _ _
  · exact List.subset_cons_self _ _
  · exact List.Subset.refl _

/-! ### Digits and exponents -/

/-- Digits with at most one point among or around them, and the digits on its two sides. -/
inductive Mantissa (digit : Char → Bool) : List Char → List Char → List Char → Prop
  | whole {w : List Char} (hw : ∀ c ∈ w, digit c = true) (hne : w ≠ []) : Mantissa digit w w []
  | point {w f : List Char} (hw : ∀ c ∈ w, digit c = true) (hf : ∀ c ∈ f, digit c = true)
    (hne : w ≠ [] ∨ f ≠ []) : Mantissa digit (w ++ '.' :: f) w f

section

variable {digit : Char → Bool} {cs : List Char}

/-- The texts of a point and a text of another language. -/
private theorem mem_point_mul {l : Language Char} :
    cs ∈ pointMark * l ↔ ∃ ds ∈ l, cs = '.' :: ds := by
  rw [Language.mem_mul]
  constructor
  · rintro ⟨_, ⟨c, hc, rfl⟩, ds, hds, rfl⟩
    rw [beq_iff_eq.1 hc]
    exact ⟨ds, hds, rfl⟩
  · rintro ⟨ds, hds, rfl⟩
    exact ⟨['.'], ⟨'.', rfl, rfl⟩, ds, hds, rfl⟩

theorem mem_patternDigits : cs ∈ patternDigits digit ↔ ∃ w f, Mantissa digit cs w f := by
  rw [patternDigits, Language.mem_add, mul_assoc, Language.mem_mul, mem_point_mul]
  simp only [mem_plus_oneOf]
  constructor
  · rintro (⟨w, ⟨hne, hw⟩, rest, hrest, rfl⟩ | ⟨f, ⟨hne, hf⟩, rfl⟩)
    · obtain ⟨point, hpoint, f, hf, rfl⟩ := Language.mem_mul.1 hrest
      rw [mem_kstar_oneOf] at hf
      rcases mem_maybe.1 hpoint with rfl | ⟨c, hc, rfl⟩
      · -- without a point all digits are in front of it, however they are split
        refine ⟨w ++ f, [], .whole (List.forall_mem_append.2 ⟨hw, hf⟩) ?_⟩
        exact List.append_ne_nil_of_left_ne_nil hne f
      · rw [beq_iff_eq.1 hc]
        exact ⟨w, f, .point hw hf (.inl hne)⟩
    · have hnone : ∀ c ∈ ([] : List Char), digit c = true := fun _ hc => absurd hc List.not_mem_nil
      exact ⟨[], f, .point hnone hf (.inr hne)⟩
  · rintro ⟨w, f, h⟩
    cases h with
    | whole hw hne =>
      refine .inl ⟨cs, ⟨hne, hw⟩, [], ?_, List.append_nil cs⟩
      exact Language.mem_mul.2 ⟨[], mem_maybe.2 (.inl rfl), [], Language.nil_mem_kstar _, rfl⟩
    | point hw hf hne =>
      rcases w with _ | ⟨c, w⟩
      · exact .inr ⟨f, ⟨hne.resolve_left fun h => h rfl, hf⟩, rfl⟩
      · refine .inl ⟨c :: w, ⟨List.cons_ne_nil _ _, hw⟩, '.' :: f, ?_, rfl⟩
        exact Language.mem_mul.2
          ⟨['.'], mem_maybe.2 (.inr ⟨'.', rfl, rfl⟩), f, mem_kstar_oneOf.2 hf, rfl⟩

theorem mem_grammarDigits : cs ∈ grammarDigits digit ↔ ∃ w f, Mantissa digit cs w f := by
  rw [grammarDigits, Language.mem_add, Language.mem_add, mul_assoc, mul_assoc, Language.mem_mul,
    Language.mem_mul, mem_plus_oneOf]
  simp only [mem_point_mul, mem_plus_oneOf, mem_kstar_oneOf]
  constructor
  · rintro ((⟨hne, hw⟩ | ⟨w, ⟨hne, hw⟩, _, ⟨f, hf, rfl⟩, rfl⟩)
      | ⟨w, hw, _, ⟨f, ⟨hne, hf⟩, rfl⟩, rfl⟩)
    · exact ⟨cs, [], .whole hw hne⟩
    · exact ⟨w, f, .point hw hf (.inl hne)⟩
    · exact ⟨w, f, .point hw hf (.inr hne)⟩
  · rintro ⟨w, f, h⟩
    cases h with
    | whole hw hne => exact .inl (.inl ⟨hne, hw⟩)
    | point hw hf hne =>
      rcases hne with hne | hne
      · exact .inl (.inr ⟨w, ⟨hne, hw⟩, _, ⟨f, hf, rfl⟩, rfl⟩)
      · exact .inr ⟨w, hw, _, ⟨f, ⟨hne, hf⟩, rfl⟩, rfl⟩

/-- **Both grammars have the same digits**, however they are written. -/
theorem grammarDigits_eq (digit : Char → Bool) : grammarDigits digit = patternDigits digit := by
  ext cs
  rw [mem_grammarDigits, mem_patternDigits]

/-- An exponent is a mark, and digits after a sign that may be absent. -/
theorem mem_exponentPart (hsign : digit '+' = false ∧ digit '-' = false) :
    cs ∈ exponentPart digit ↔ ∃ c rest, cs = c :: rest ∧ (c = 'e' ∨ c = 'E')
      ∧ (splitSign rest).2 ≠ [] ∧ ∀ d ∈ (splitSign rest).2, digit d = true := by
  have hunsigned : ∀ ds, '+' :: ds ∉ plus (oneOf digit) ∧ '-' :: ds ∉ plus (oneOf digit) := by
    intro ds
    simp [mem_plus_oneOf, hsign]
  rw [exponentPart, Language.mem_mul]
  simp only [mem_sign_mul_iff hunsigned, mem_plus_oneOf]
  constructor
  · rintro ⟨_, ⟨c, hc, rfl⟩, rest, hrest, rfl⟩
    exact ⟨c, rest, rfl, by simpa using hc, hrest⟩
  · rintro ⟨c, rest, rfl, hc, hrest⟩
    exact ⟨[c], ⟨c, by simpa using hc, rfl⟩, rest, hrest, rfl⟩

end

/-! ### Scanning -/

/-- The digits in front of a point and after it, and the characters after them. -/
def scanDigits (digit : Char → Bool) (cs : List Char) : List Char × List Char × List Char :=
  (cs.takeWhile digit, match cs.dropWhile digit with
    | '.' :: rest => (rest.takeWhile digit, rest.dropWhile digit)
    | rest => ([], rest))

/-- Characters that are digits for the one, but for the other neither signs, nor marks of exponents,
nor points. -/
structure IsDigitTest (digit : Char → Bool) : Prop where
  plus : digit '+' = false
  minus : digit '-' = false
  point : digit '.' = false
  lower : digit 'e' = false
  upper : digit 'E' = false

section

variable {digit : Char → Bool} {m w f rest cs : List Char}

private theorem span_digits (hw : ∀ c ∈ w, digit c = true)
    (hrest : ∀ c ∈ rest.head?, digit c = false) :
    (w ++ rest).takeWhile digit = w ∧ (w ++ rest).dropWhile digit = rest := by
  rw [List.takeWhile_append_of_pos hw, List.dropWhile_append_of_pos hw]
  cases rest with
  | nil => exact ⟨List.append_nil w, rfl⟩
  | cons c rest =>
    have hc : digit c = false := hrest c rfl
    simp [hc]

/-- Scanning splits off the digits with their point. -/
theorem scanDigits_append (hdigit : IsDigitTest digit) (h : Mantissa digit m w f)
    (hrest : ∀ c ∈ rest.head?, digit c = false ∧ c ≠ '.') :
    scanDigits digit (m ++ rest) = (w, f, rest) := by
  have hnone : ∀ c ∈ rest.head?, digit c = false := fun c hc => (hrest c hc).1
  cases h with
  | whole hw _ =>
    obtain ⟨htake, hdrop⟩ := span_digits hw hnone
    rw [scanDigits, htake, hdrop]
    split
    · exact absurd rfl (hrest _ rfl).2
    · rfl
  | point hw hf _ =>
    have hpoint : ∀ c ∈ ('.' :: (f ++ rest)).head?, digit c = false := by
      rintro _ ⟨⟩
      exact hdigit.point
    obtain ⟨htake, hdrop⟩ := span_digits hw hpoint
    obtain ⟨htake', hdrop'⟩ := span_digits hf hnone
    rw [List.append_assoc, List.cons_append, scanDigits, htake, hdrop]
    simp only [htake', hdrop']

/-- What is scanned are digits with their point, and the rest. -/
theorem exists_mantissa_of_scan (h : scanDigits digit cs = (w, f, rest)) (hne : w ≠ [] ∨ f ≠ []) :
    ∃ m, Mantissa digit m w f ∧ cs = m ++ rest := by
  have hdigits : ∀ ds : List Char, ∀ c ∈ ds.takeWhile digit, digit c = true := fun ds c hc =>
    List.all_eq_true.1 List.all_takeWhile c hc
  have hsplit := List.takeWhile_append_dropWhile (p := digit) (l := cs)
  unfold scanDigits at h
  split at h
  · rename_i after hdrop
    cases h
    refine ⟨_, .point (hdigits cs) (hdigits after) hne, ?_⟩
    rw [hdrop] at hsplit
    rw [List.append_assoc, List.cons_append, List.takeWhile_append_dropWhile, hsplit]
  · cases h
    exact ⟨_, .whole (hdigits cs) (hne.resolve_right fun h => h rfl), hsplit.symm⟩

/-- A number without a sign: digits, and an exponent that may be absent. -/
def unsignedNumber (digit : Char → Bool) : Language Char :=
  patternDigits digit * maybe (exponentPart digit)

/-- A number begins with a digit or a point. -/
theorem head_unsignedNumber {c : Char} (h : c :: cs ∈ unsignedNumber digit) :
    digit c = true ∨ c = '.' := by
  obtain ⟨m, hm, rest, -, heq⟩ := Language.mem_mul.1 h
  obtain ⟨w, f, hmantissa⟩ := mem_patternDigits.1 hm
  cases hmantissa with
  | whole hw hne =>
    obtain ⟨d, ds, rfl⟩ := List.exists_cons_of_ne_nil hne
    cases heq
    exact .inl (hw _ List.mem_cons_self)
  | point hw _ _ =>
    rcases w with _ | ⟨d, ds⟩
    · cases heq
      exact .inr rfl
    · cases heq
      exact .inl (hw _ List.mem_cons_self)

/-- **Scanning decides** whether characters are a number without a sign. -/
theorem mem_unsignedNumber_iff (hdigit : IsDigitTest digit)
    (hscan : scanDigits digit cs = (w, f, rest)) :
    cs ∈ unsignedNumber digit
      ↔ (w ≠ [] ∨ f ≠ []) ∧ (rest = [] ∨ rest ∈ exponentPart digit) := by
  rw [unsignedNumber, Language.mem_mul]
  simp only [mem_patternDigits, mem_maybe]
  constructor
  · rintro ⟨m, ⟨w', f', hm⟩, e, he, rfl⟩
    -- an exponent begins with its mark, which ends the digits
    have hend : ∀ c ∈ e.head?, digit c = false ∧ c ≠ '.' := by
      rcases he with rfl | he
      · nofun
      · obtain ⟨c, after, rfl, hmark, -⟩ := (mem_exponentPart ⟨hdigit.plus, hdigit.minus⟩).1 he
        rintro _ ⟨⟩
        rcases hmark with rfl | rfl
        · exact ⟨hdigit.lower, by decide⟩
        · exact ⟨hdigit.upper, by decide⟩
    rw [scanDigits_append hdigit hm hend] at hscan
    cases hscan
    refine ⟨?_, he⟩
    cases hm with
    | whole _ hne => exact .inl hne
    | point _ _ hne => exact hne
  · rintro ⟨hne, hrest⟩
    obtain ⟨m, hm, rfl⟩ := exists_mantissa_of_scan hscan hne
    exact ⟨m, ⟨w, f, hm⟩, rest, hrest, rfl⟩

end

/-! ### The pattern -/

theorem isDigitTest_isDecimalDigit : IsDigitTest isDecimalDigit := by
  constructor <;> decide

theorem isDigitTest_isDigit : IsDigitTest Char.isDigit := by
  constructor <;> decide

theorem looksLikeExponent_iff {cs : List Char} :
    looksLikeExponent cs = true ↔ cs ∈ exponentPart isDecimalDigit := by
  rw [mem_exponentPart (by decide)]
  cases cs with
  | nil => simp [looksLikeExponent]
  | cons c cs => simp [looksLikeExponent, and_assoc]

theorem looksUnsigned_iff {cs : List Char} :
    looksUnsigned cs = true ↔ cs ∈ unsignedNumber isDecimalDigit := by
  obtain ⟨w, f, rest, hscan⟩ : ∃ w f rest, scanDigits isDecimalDigit cs = (w, f, rest) :=
    ⟨_, _, _, rfl⟩
  have hlooks : looksUnsigned cs
      = (!(w.isEmpty && f.isEmpty) && (rest.isEmpty || looksLikeExponent rest)) := by
    change (let s := scanDigits isDecimalDigit cs
      !(s.1.isEmpty && s.2.1.isEmpty) && (s.2.2.isEmpty || looksLikeExponent s.2.2)) = _
    rw [hscan]
  rw [mem_unsignedNumber_iff isDigitTest_isDecimalDigit hscan, hlooks, ← looksLikeExponent_iff]
  cases w <;> cases f <;> simp

/-- A number without a sign does not begin with one. -/
theorem unsigned_unsignedNumber {digit : Char → Bool} (hdigit : IsDigitTest digit)
    (cs : List Char) :
    '+' :: cs ∉ unsignedNumber digit ∧ '-' :: cs ∉ unsignedNumber digit := by
  refine ⟨fun h => ?_, fun h => ?_⟩
  · exact absurd (head_unsignedNumber h) (by rw [hdigit.plus]; decide)
  · exact absurd (head_unsignedNumber h) (by rw [hdigit.minus]; decide)

theorem mem_numericPattern_iff {cs : List Char} :
    cs ∈ numericPattern ↔ (splitSign cs).2 ∈ unsignedNumber isDecimalDigit :=
  mem_sign_mul_iff (unsigned_unsignedNumber isDigitTest_isDecimalDigit)

/-- **What looks like a number** matches the pattern. -/
theorem looksNumeric_iff {cs : List Char} : looksNumeric cs = true ↔ cs ∈ numericPattern := by
  rw [looksNumeric, looksUnsigned_iff, mem_numericPattern_iff]

/-! ### The numbers that are read -/

theorem isSome_digitValue? (c : Char) : (digitValue? c).isSome = c.isDigit := by
  rw [digitValue?]
  split <;> simp [*]

theorem isSome_readDigitsFrom?_iff {acc : Nat} {cs : List Char} :
    (readDigitsFrom? acc cs).isSome = true ↔ ∀ c ∈ cs, c.isDigit = true := by
  induction cs generalizing acc with
  | nil => simp [readDigitsFrom?]
  | cons c cs ih =>
    rw [readDigitsFrom?, List.forall_mem_cons, ← isSome_digitValue?]
    cases digitValue? c with
    | none => simp
    | some d => simp [ih]

theorem isSome_readDigits?_iff {cs : List Char} :
    (readDigits? cs).isSome = true ↔ cs ≠ [] ∧ ∀ c ∈ cs, c.isDigit = true := by
  cases cs with
  | nil => simp [readDigits?]
  | cons c cs =>
    rw [readDigits?, isSome_readDigitsFrom?_iff]
    · simp
    · nofun

theorem isSome_readExponent?_iff {cs : List Char} :
    (readExponent? cs).isSome = true ↔ cs = [] ∨ cs ∈ exponentPart Char.isDigit := by
  rw [mem_exponentPart (by decide)]
  cases cs with
  | nil => simp [readExponent?]
  | cons c cs =>
    rw [readExponent?]
    split
    · rename_i hmark
      have hdigits : (readDigits? (splitSign cs).2).isSome = true
          ↔ (splitSign cs).2 ≠ [] ∧ ∀ c ∈ (splitSign cs).2, c.isDigit = true :=
        isSome_readDigits?_iff
      simp only [reduceCtorEq, false_or, List.cons.injEq, ↓existsAndEq, and_true, hmark,
        true_and]
      rw [← hdigits]
      cases readDigits? (splitSign cs).2 <;> rfl
    · rename_i hmark
      simp [hmark]

theorem isSome_read?_iff {cs : List Char} :
    (Numeral.read? cs).isSome = true ↔ cs ∈ unsignedNumber Char.isDigit := by
  obtain ⟨w, f, rest, hscan⟩ : ∃ w f rest, scanDigits Char.isDigit cs = (w, f, rest) :=
    ⟨_, _, _, rfl⟩
  have hread : (Numeral.read? cs).isSome
      = (!(w.isEmpty && f.isEmpty) && (readExponent? rest).isSome) := by
    change (let s := scanDigits Char.isDigit cs
      if s.1.isEmpty && s.2.1.isEmpty then none
      else (readExponent? s.2.2).map fun exponent => (⟨s.1, s.2.1, exponent⟩ : Numeral)).isSome = _
    rw [hscan]
    dsimp only
    by_cases hempty : (w.isEmpty && f.isEmpty) = true
    · rw [if_pos hempty, hempty]
      rfl
    · rw [if_neg hempty, Option.isSome_map, Bool.eq_false_of_not_eq_true hempty]
      rfl
  rw [mem_unsignedNumber_iff isDigitTest_isDigit hscan, hread, ← isSome_readExponent?_iff]
  cases w <;> cases f <;> simp

theorem mem_nonFinite_iff {cs : List Char} :
    cs ∈ nonFinite ↔ isInfinityName cs = true ∨ isNaNName cs = true := by
  have hmem : cs ∈ nonFinite
      ↔ cs.map Char.toLower ∈ ["inf".toList, "infinity".toList, "nan".toList] := Iff.rfl
  simp only [hmem, List.mem_cons, List.not_mem_nil, or_false, isInfinityName, isNaNName,
    Bool.or_eq_true, beq_iff_eq, or_assoc]

/-- A name begins with one of two letters. -/
theorem head_nonFinite {c : Char} {cs : List Char} (h : c :: cs ∈ nonFinite) :
    c.toLower = 'i' ∨ c.toLower = 'n' := by
  have hmem : (c :: cs).map Char.toLower ∈ ["inf".toList, "infinity".toList, "nan".toList] := h
  simp only [List.mem_cons, List.not_mem_nil, or_false, List.map_cons] at hmem
  rcases hmem with h | h | h
  · exact .inl (List.cons.inj h).1
  · exact .inl (List.cons.inj h).1
  · exact .inr (List.cons.inj h).1

theorem unsigned_nonFinite (cs : List Char) : '+' :: cs ∉ nonFinite ∧ '-' :: cs ∉ nonFinite := by
  refine ⟨fun h => ?_, fun h => ?_⟩
  · exact absurd (head_nonFinite h) (by decide)
  · exact absurd (head_nonFinite h) (by decide)

theorem mem_numberGrammar_iff {cs : List Char} :
    cs ∈ numberGrammar
      ↔ (splitSign cs).2 ∈ nonFinite ∨ (splitSign cs).2 ∈ unsignedNumber Char.isDigit := by
  have hunsigned : ∀ ds, '+' :: ds ∉ nonFinite + unsignedNumber Char.isDigit
      ∧ '-' :: ds ∉ nonFinite + unsignedNumber Char.isDigit := by
    intro ds
    obtain ⟨hplus, hminus⟩ := unsigned_nonFinite ds
    obtain ⟨hplus', hminus'⟩ := unsigned_unsignedNumber isDigitTest_isDigit ds
    rw [Language.mem_add, Language.mem_add, not_or, not_or]
    exact ⟨⟨hplus, hplus'⟩, hminus, hminus'⟩
  rw [← Language.mem_add, ← mem_sign_mul_iff hunsigned, numberGrammar, grammarDigits_eq]
  rfl

/-- **What is read** follows the grammar. -/
theorem isSome_readNumber?_iff {s : String} :
    (readNumber? s).isSome = true ↔ s.toList ∈ numberGrammar := by
  have hmagnitude : (readNumber? s).isSome = (readMagnitude? (splitSign s.toList).2).isSome :=
    Option.isSome_map
  rw [mem_numberGrammar_iff, hmagnitude, mem_nonFinite_iff, ← isSome_read?_iff, readMagnitude?]
  cases isInfinityName (splitSign s.toList).2 <;> cases isNaNName (splitSign s.toList).2 <;> simp

/-! ### ASCII characters -/

/-- ASCII characters are decimal digits if and only if they are ASCII digits. -/
theorem isDecimalDigit_of_ascii {c : Char} (h : c.toNat < 0x80) :
    isDecimalDigit c = c.isDigit := by
  have hother : ∀ first ∈ decimalZeros.tail, 0x80 ≤ first := by decide
  have hzeros : decimalZeros = 0x30 :: decimalZeros.tail := rfl
  have hnone : (decimalZeros.tail.any fun first =>
      decide (first ≤ c.toNat) && decide (c.toNat < first + 10)) = false := by
    refine List.any_eq_false.2 fun first hfirst => ?_
    have hle := hother first hfirst
    simp
    omega
  rw [isDecimalDigit, hzeros, List.any_cons, hnone, Bool.or_false, Bool.eq_iff_iff,
    Bool.and_eq_true, decide_eq_true_eq, decide_eq_true_eq, Char.isDigit_iff_toNat]
  exact and_congr_right fun _ => Nat.lt_succ_iff

section

variable {digit digit' : Char → Bool} {cs : List Char}

theorem Mantissa.congr {w f : List Char} (h : ∀ c ∈ cs, digit c = digit' c)
    (hm : Mantissa digit cs w f) : Mantissa digit' cs w f := by
  cases hm with
  | whole hw hne => exact .whole (fun c hc => h c hc ▸ hw c hc) hne
  | point hw hf hne =>
    obtain ⟨hwhole, hpoint⟩ := List.forall_mem_append.1 h
    have hfraction := (List.forall_mem_cons.1 hpoint).2
    exact .point (fun c hc => hwhole c hc ▸ hw c hc) (fun c hc => hfraction c hc ▸ hf c hc) hne

theorem exponentPart_congr (hdigit : IsDigitTest digit) (hdigit' : IsDigitTest digit')
    (h : ∀ c ∈ cs, digit c = digit' c) (hcs : cs ∈ exponentPart digit) :
    cs ∈ exponentPart digit' := by
  rw [mem_exponentPart ⟨hdigit.plus, hdigit.minus⟩] at hcs
  obtain ⟨c, rest, rfl, hmark, hne, hall⟩ := hcs
  refine (mem_exponentPart ⟨hdigit'.plus, hdigit'.minus⟩).2 ⟨c, rest, rfl, hmark, hne, ?_⟩
  intro d hd
  rw [← h d (List.mem_cons_of_mem c (subset_splitSign rest hd))]
  exact hall d hd

/-- Tests that agree on the characters of a text see the same number in it. -/
theorem unsignedNumber_congr (hdigit : IsDigitTest digit) (hdigit' : IsDigitTest digit')
    (h : ∀ c ∈ cs, digit c = digit' c) (hcs : cs ∈ unsignedNumber digit) :
    cs ∈ unsignedNumber digit' := by
  obtain ⟨m, hm, e, he, rfl⟩ := Language.mem_mul.1 hcs
  obtain ⟨hdigits, hexponent⟩ := List.forall_mem_append.1 h
  obtain ⟨w, f, hm⟩ := mem_patternDigits.1 hm
  refine Language.mem_mul.2 ⟨m, mem_patternDigits.2 ⟨w, f, hm.congr hdigits⟩, e, ?_, rfl⟩
  rw [mem_maybe] at he ⊢
  exact he.imp_right (exponentPart_congr hdigit hdigit' hexponent)

end

theorem toLower_of_isDigit {c : Char} (h : c.isDigit = true) : c.toLower = c := by
  rw [Char.isDigit_iff_toNat] at h
  refine dif_neg fun hupper => ?_
  rw [ge_iff_le, UInt32.le_iff_toNat_le] at hupper
  exact absurd (hupper.1.trans h.2) (by decide)

/-- No number without a sign is a name: a name begins with a letter. -/
theorem not_mem_nonFinite_of_unsignedNumber {cs : List Char}
    (h : cs ∈ unsignedNumber Char.isDigit) : cs ∉ nonFinite := by
  intro hname
  cases cs with
  | nil => exact absurd (mem_nonFinite_iff.1 hname) (by decide)
  | cons c cs =>
    have hletter := head_nonFinite hname
    rcases head_unsignedNumber h with hdigit | rfl
    · rw [toLower_of_isDigit hdigit] at hletter
      rcases hletter with rfl | rfl <;> exact absurd hdigit (by decide)
    · exact absurd hletter (by decide)

/-- **Over ASCII characters** the pattern accepts the numbers that are read, but for the names. -/
theorem mem_numericPattern_iff_of_ascii {cs : List Char} (h : ∀ c ∈ cs, c.toNat < 0x80) :
    cs ∈ numericPattern ↔ cs ∈ numberGrammar ∧ cs ∉ maybe signMark * nonFinite := by
  have hdigits : ∀ c ∈ (splitSign cs).2, isDecimalDigit c = c.isDigit := fun c hc =>
    isDecimalDigit_of_ascii (h c (subset_splitSign cs hc))
  have hsame : (splitSign cs).2 ∈ unsignedNumber isDecimalDigit
      ↔ (splitSign cs).2 ∈ unsignedNumber Char.isDigit :=
    ⟨unsignedNumber_congr isDigitTest_isDecimalDigit isDigitTest_isDigit hdigits,
      unsignedNumber_congr isDigitTest_isDigit isDigitTest_isDecimalDigit
        fun c hc => (hdigits c hc).symm⟩
  have hname : cs ∈ maybe signMark * nonFinite ↔ (splitSign cs).2 ∈ nonFinite :=
    mem_sign_mul_iff unsigned_nonFinite
  rw [mem_numericPattern_iff, mem_numberGrammar_iff, hname, hsame]
  constructor
  · exact fun hnumber => ⟨.inr hnumber, not_mem_nonFinite_of_unsignedNumber hnumber⟩
  · exact fun ⟨hread, hnot⟩ => hread.resolve_left hnot

/-! ### The display of values -/

/-- **The display of values** recognises numbers by a pattern.  A trimmed text of ASCII characters
matches it if and only if it is read as a number and is no name of infinity or of what is no number;
so the text is read whenever the display needs its number.  A text that matches and has neither a
point nor an exponent is shown as it is, with all its digits.  A value whose text does not match is
shown with the white space around it. -/
theorem display_recognises (v : String) :
    (looksNumeric (trim v).toList = true ↔ (trim v).toList ∈ numericPattern)
    ∧ ((readNumber? (trim v)).isSome = true ↔ (trim v).toList ∈ numberGrammar)
    ∧ ((∀ c ∈ (trim v).toList, c.toNat < 0x80) →
        (looksNumeric (trim v).toList = true ↔
          (readNumber? (trim v)).isSome = true ∧ (trim v).toList ∉ maybe signMark * nonFinite)
        ∧ (looksNumeric (trim v).toList = true →
          (∃ c ∈ (trim v).toList, c = '.' ∨ c = 'e' ∨ c = 'E') →
          ∃ x, readNumber? (trim v) = some x ∧ displayValue v = displayNumber x))
    ∧ (looksNumeric (trim v).toList = true →
        (∀ c ∈ (trim v).toList, c ≠ '.' ∧ c ≠ 'e' ∧ c ≠ 'E') → displayValue v = trim v)
    ∧ (looksNumeric (trim v).toList = false → displayValue v = v) := by
  have hread : (∀ c ∈ (trim v).toList, c.toNat < 0x80) →
      (looksNumeric (trim v).toList = true ↔
        (readNumber? (trim v)).isSome = true ∧ (trim v).toList ∉ maybe signMark * nonFinite) := by
    intro hascii
    rw [looksNumeric_iff, isSome_readNumber?_iff]
    exact mem_numericPattern_iff_of_ascii hascii
  refine ⟨looksNumeric_iff, isSome_readNumber?_iff, fun hascii => ⟨hread hascii, ?_⟩, ?_, ?_⟩
  · rintro hlooks ⟨c, hc, hmark⟩
    obtain ⟨x, hx⟩ := Option.isSome_iff_exists.1 ((hread hascii).1 hlooks).1
    have hany : ((trim v).toList.any fun c => c == '.' || c == 'e' || c == 'E') = true :=
      List.any_eq_true.2 ⟨c, hc, by simpa [or_assoc] using hmark⟩
    refine ⟨x, hx, ?_⟩
    simp only [displayValue, hlooks, hany, hx, Bool.not_true, Bool.false_eq_true, if_false]
  · intro hlooks hplain
    have hany : ((trim v).toList.any fun c => c == '.' || c == 'e' || c == 'E') = false :=
      List.any_eq_false.2 fun c hc => by simp [hplain c hc]
    simp only [displayValue, hlooks, hany, Bool.not_true, Bool.not_false, Bool.false_eq_true,
      if_false, if_true]
  · intro hlooks
    simp only [displayValue, hlooks, Bool.not_false, if_true]

/-- A text of digits is shown without the white space around it, a lone point with it, and a text
with a point by its number. -/
theorem display_recognises_texts :
    displayValue " +12345678901234567891 " = "+12345678901234567891" ∧ displayValue " . " = " . "
    ∧ ∃ x, readNumber? ".5e1" = some x ∧ displayValue ".5e1" = displayNumber x := by
  have hplain : ∀ c ∈ (trim " +12345678901234567891 ").toList, c ≠ '.' ∧ c ≠ 'e' ∧ c ≠ 'E' := by
    have hall : ((trim " +12345678901234567891 ").toList.all fun c =>
        c != '.' && (c != 'e' && c != 'E')) = true := by
      decide +kernel
    simpa only [List.all_eq_true, Bool.and_eq_true, bne_iff_ne] using hall
  have hascii : ∀ c ∈ (trim ".5e1").toList, c.toNat < 0x80 := by
    have hall : ((trim ".5e1").toList.all fun c => decide (c.toNat < 0x80)) = true := by
      decide +kernel
    simpa only [List.all_eq_true, decide_eq_true_iff] using hall
  refine ⟨?_, ?_, ?_⟩
  · exact (display_recognises " +12345678901234567891 ").2.2.2.1 (by decide +kernel) hplain
  · exact (display_recognises " . ").2.2.2.2 (by decide +kernel)
  · exact ((display_recognises ".5e1").2.2.1 hascii).2 (by decide +kernel)
      ⟨'.', by decide +kernel, .inl rfl⟩

end Datacube
