import Datacube.Proofs.UniqueNames
import Datacube.Schema.Measure

/-!
# Formulas that are read back

The text of a formula holds its operands and, between blanks, the sign of its operator.  Nothing
marks the place of the operator.  The text is searched for the signs one after the other, and the
first sign that is found splits it where it occurs first.  So a formula between names in brackets
is read back unless a name contains such a sign, between blanks, that is found too early.

## Main definitions

* `Arithmetic.earlier` — the operators that a text is searched for before another one.
* `IsBracketed` — whether a name begins and ends with a bracket.
* `Formula.IsLegible` — whether no sign is found too early in the text of a formula.
* `IsOperand`, `IsPlain` — whether a name can stand in the text of any formula.

## Main results

* `Formula.read_eq_ok_iff` — how a formula is found in a text.
* `Formula.read_text_eq_ok_iff` — **what is read back are the legible formulas**.
* `Arithmetic.standsIn_joinSegments` — **a sign stands in a unique name** if it does in a segment.
* `Formula.isLegible_iff` — what makes a formula between unique names legible.
* `Formula.read_text` — formulas are read back if their operands allow it.
-/

namespace Datacube

/-! ### Patterns -/

/-- A pattern that does not occur in a text cannot begin in it either, unless it contains the last
character of the text. -/
theorem splitAround?_append {pattern before rest : List Char}
    (hlast : ∀ c ∈ before.getLast?, c ∉ pattern) (hfree : splitAround? pattern before = none) :
    splitAround? pattern (before ++ rest)
      = (splitAround? pattern rest).map fun (x, y) => (before ++ x, y) := by
  induction before with
  | nil => simp
  | cons c before ih =>
    have hstart : ¬ pattern.isPrefixOf (c :: before) := by
      intro h
      rw [splitAround?, if_pos h] at hfree
      cases hfree
    have hrest : splitAround? pattern before = none := by
      rw [splitAround?, if_neg hstart] at hfree
      exact Option.map_eq_none_iff.1 hfree
    -- a pattern that begins here ends inside `before` or contains its last character
    have hstart' : ¬ pattern.isPrefixOf (c :: (before ++ rest)) := by
      intro h
      rw [List.isPrefixOf_iff_prefix] at h hstart
      rcases List.prefix_or_prefix_of_prefix h (List.prefix_append (c :: before) rest)
        with h | h
      · exact hstart h
      · have hmem : (c :: before).getLast (List.cons_ne_nil c before) ∈ pattern :=
          h.subset (List.getLast_mem _)
        exact hlast _ (List.getLast?_eq_some_getLast _) hmem
    have hlast' : ∀ d ∈ before.getLast?, d ∉ pattern := by
      intro d hd
      refine hlast d ?_
      cases before with
      | nil => cases hd
      | cons => simpa using hd
    rw [List.cons_append, splitAround?, if_neg hstart', ih hlast' hrest]
    cases splitAround? pattern rest <;> rfl

/-- The parts around an occurrence make up the text. -/
theorem eq_append_of_splitAround? {pattern cs x y : List Char}
    (h : splitAround? pattern cs = some (x, y)) : cs = x ++ pattern ++ y := by
  induction cs generalizing x y with
  | nil =>
    cases pattern with
    | nil =>
      cases h
      rfl
    | cons => cases h
  | cons c cs ih =>
    rw [splitAround?] at h
    split at h
    · rename_i hstart
      cases h
      exact (List.prefix_iff_eq_append.1 (List.isPrefixOf_iff_prefix.1 hstart)).symm
    · obtain ⟨⟨x', y'⟩, hrest, heq⟩ := Option.map_eq_some_iff.1 h
      cases heq
      rw [ih hrest]
      rfl

/-- The first occurrence in a text is the first one whatever comes after the text. -/
theorem splitAround?_append_of_some {pattern before x y : List Char} (rest : List Char)
    (h : splitAround? pattern before = some (x, y)) :
    splitAround? pattern (before ++ rest) = some (x, y ++ rest) := by
  induction before generalizing x y with
  | nil =>
    cases pattern with
    | nil =>
      cases h
      cases rest <;> rfl
    | cons => cases h
  | cons c before ih =>
    rw [List.cons_append, splitAround?]
    rw [splitAround?] at h
    split at h
    · rename_i hstart
      have hbegins := List.isPrefixOf_iff_prefix.1 hstart
      cases h
      rw [← List.cons_append, if_pos (List.isPrefixOf_iff_prefix.2 (hbegins.trans
        (List.prefix_append _ _))), List.drop_append_of_le_length hbegins.length_le]
    · rename_i hstart
      obtain ⟨⟨x', y'⟩, hrest, heq⟩ := Option.map_eq_some_iff.1 h
      cases heq
      -- a pattern that begins here would end inside `before`, where it fits
      have hstart' : ¬ pattern.isPrefixOf (c :: (before ++ rest)) := by
        intro hlong
        have hfits : pattern.length ≤ (c :: before).length := by
          rw [eq_append_of_splitAround? hrest]
          simp only [List.length_cons, List.length_append]
          omega
        refine hstart (List.isPrefixOf_iff_prefix.2 ?_)
        exact List.prefix_of_prefix_length_le (List.isPrefixOf_iff_prefix.1 hlong)
          (List.prefix_append (c :: before) rest) hfits
      rw [if_neg hstart', ih hrest]
      rfl

/-- A pattern is found in a text that contains it. -/
private theorem splitAround?_isSome {pattern : List Char} (before rest : List Char) :
    (splitAround? pattern (before ++ pattern ++ rest)).isSome = true := by
  induction before with
  | nil =>
    cases pattern with
    | nil => cases rest <;> simp [splitAround?]
    | cons c cs => simp [splitAround?, List.isPrefixOf_iff_prefix]
  | cons c cs ih =>
    rw [List.cons_append, List.cons_append, splitAround?]
    split
    · rfl
    · rwa [Option.isSome_map]

/-- Whether a pattern occurs in a text says whether it is a part of the text. -/
theorem occursIn_eq_true_iff {pattern cs : List Char} :
    occursIn pattern cs = true ↔ pattern <:+: cs := by
  constructor
  · intro h
    obtain ⟨⟨x, y⟩, hsplit⟩ := Option.isSome_iff_exists.1 h
    exact ⟨x, y, (eq_append_of_splitAround? hsplit).symm⟩
  · rintro ⟨x, y, rfl⟩
    exact splitAround?_isSome x y

section

variable {pattern : List Char} {q : Char} (hq : q ∉ pattern)

include hq

/-- A pattern does not occur across a character that is not in it. -/
private theorem infix_append_cons {xs ys : List Char} :
    pattern <:+: xs ++ q :: ys ↔ pattern <:+: xs ∨ pattern <:+: ys := by
  have hempty : ∀ {part}, part ⊆ pattern → part <+: q :: ys → part = [] := by
    intro part hpart h
    cases part with
    | nil => rfl
    | cons c part =>
      obtain ⟨rfl, -⟩ := List.cons_prefix_cons.1 h
      exact absurd (hpart List.mem_cons_self) hq
  constructor
  · intro h
    rcases List.infix_append_iff.1 h with h | h | ⟨l₁, l₂, hsplit, hl₁, hl₂⟩
    · exact .inl h
    · rcases List.infix_cons_iff.1 h with h | h
      · rw [hempty (List.Subset.refl pattern) h]
        exact .inl List.nil_infix
      · exact .inr h
    · have hnil : l₂ = [] := hempty (hsplit ▸ List.subset_append_right l₁ l₂) hl₂
      rw [hsplit, hnil, List.append_nil]
      exact .inl hl₁.isInfix
  · rintro (h | h)
    · exact h.trans (List.prefix_append xs (q :: ys)).isInfix
    · exact h.trans ((List.suffix_cons q ys).trans (List.suffix_append xs (q :: ys))).isInfix

/-- A character that is not in a pattern can be left out in front of a text. -/
private theorem infix_cons_of_not_mem {ys : List Char} :
    pattern <:+: q :: ys ↔ pattern <:+: ys := by
  rw [← List.nil_append (q :: ys), infix_append_cons hq, or_iff_right_of_imp]
  exact fun h => h.trans List.nil_infix

/-- A pattern does not see whether a character that is not in it is written twice. -/
private theorem infix_append_doubled (xs cs : List Char) :
    pattern <:+: xs ++ doubled q cs ↔ pattern <:+: xs ++ cs := by
  induction cs generalizing xs with
  | nil => rfl
  | cons c cs ih =>
    by_cases hc : c = q
    · subst hc
      have hrest : pattern <:+: doubled c cs ↔ pattern <:+: cs := ih []
      rw [doubled_cons_self, infix_append_cons hq, infix_append_cons hq, infix_cons_of_not_mem hq,
        hrest]
    -- what has been read may be the beginning of the pattern
    · have hxs := ih (xs ++ [c])
      rwa [List.append_assoc, List.append_assoc, List.singleton_append, List.singleton_append,
        ← doubled_cons_of_ne hc] at hxs

end

/-! ### Signs -/

namespace Arithmetic

/-- The operators that a text is searched for before another one. -/
def earlier (op : Arithmetic) : List Arithmetic := all.takeWhile (· ≠ op)

/-- Whether the sign of an operator stands between blanks in a text. -/
def standsIn (op : Arithmetic) (s : String) : Bool :=
  occursIn (" " ++ op.symbol ++ " ").toList s.toList

theorem exists_all_eq (op : Arithmetic) : ∃ later, all = op.earlier ++ op :: later := by
  cases op <;> exact ⟨_, rfl⟩

theorem ne_of_mem_earlier {op op' : Arithmetic} (h : op' ∈ op.earlier) : op' ≠ op := by
  simpa using List.all_eq_true.1 List.all_takeWhile op' h

end Arithmetic

/-- The sign of an operator. -/
private def signOf : Arithmetic → Char
  | .add => '+'
  | .subtract => '-'
  | .multiply => '*'
  | .divide => '/'

private theorem toList_pattern (op : Arithmetic) :
    (" " ++ op.symbol ++ " ").toList = [' ', signOf op, ' '] := by
  cases op <;> rfl

private theorem signOf_inj {op op' : Arithmetic} (h : signOf op = signOf op') : op = op' := by
  cases op <;> cases op' <;> first | rfl | exact absurd h (by decide)

private theorem signOf_ne (op : Arithmetic) :
    signOf op ≠ ' ' ∧ signOf op ≠ '[' ∧ signOf op ≠ ']' := by
  cases op <;> decide

private theorem standsIn_eq_false {op : Arithmetic} {s : String} :
    op.standsIn s = false ↔ splitAround? [' ', signOf op, ' '] s.toList = none := by
  rw [Arithmetic.standsIn, toList_pattern, occursIn, Option.isSome_eq_false_iff,
    Option.isNone_iff_eq_none]

/-! ### Names in brackets -/

/-- Whether a name begins and ends with a bracket. -/
structure IsBracketed (name : String) : Prop where
  opens : name.toList.head? = some '['
  closes : name.toList.getLast? = some ']'

namespace IsBracketed

variable {name : String} (h : IsBracketed name)

include h

theorem trimmed : String.ofList (trimChars name.toList) = name := by
  rw [trimChars_of_ends, String.ofList_toList]
  · rw [h.opens]
    rintro _ ⟨⟩
    decide
  · rw [h.closes]
    rintro _ ⟨⟩
    decide

/-- A sign that does not stand in a name is looked for behind the name. -/
private theorem splitAround?_prepend {op : Arithmetic} (hfree : op.standsIn name = false)
    (rest : List Char) : splitAround? [' ', signOf op, ' '] (name.toList ++ rest)
      = (splitAround? [' ', signOf op, ' '] rest).map fun (x, y) => (name.toList ++ x, y) := by
  refine splitAround?_append ?_ (standsIn_eq_false.1 hfree)
  rw [h.closes]
  rintro _ ⟨⟩ hmem
  have hne := (signOf_ne op).2.2
  simp only [List.mem_cons, List.not_mem_nil, or_false] at hmem
  rcases hmem with e | e | e
  · exact absurd e (by decide)
  · exact hne e.symm
  · exact absurd e (by decide)

/-- A sign that is looked for in front of a name is found there or in the name. -/
private theorem splitAround?_sign (op op' : Arithmetic) :
    splitAround? [' ', signOf op', ' '] (' ' :: signOf op :: ' ' :: name.toList)
      = if op = op' then some ([], name.toList)
        else (splitAround? [' ', signOf op', ' '] name.toList).map fun (x, y) =>
          (' ' :: signOf op :: ' ' :: x, y) := by
  by_cases e : op = op'
  · subst e
    simp [splitAround?]
  · obtain ⟨cs, hcs⟩ : ∃ cs, name.toList = '[' :: cs := List.head?_eq_some_iff.1 h.opens
    have hne : signOf op' ≠ signOf op := fun e' => e (signOf_inj e'.symm)
    have hblank := (signOf_ne op).1.symm
    have hbracket := (signOf_ne op').2.1
    -- after its first blank, the pattern would go on with the bracket of the name
    rw [if_neg e, hcs]
    simp [splitAround?, hne, hblank, hbracket, Option.map_map, Function.comp_def]

end IsBracketed

/-! ### Signs in unique names -/

/-- A sign stands in a segment in brackets if it stands in the segment. -/
private theorem infix_quoteChars {op : Arithmetic} {cs : List Char} :
    [' ', signOf op, ' '] <:+: quoteChars cs ↔ [' ', signOf op, ' '] <:+: cs := by
  have hopen : '[' ∉ [' ', signOf op, ' '] := by cases op <;> decide
  have hclose : ']' ∉ [' ', signOf op, ' '] := by cases op <;> decide
  have hdoubled := infix_append_doubled hclose [] cs
  simp only [List.nil_append] at hdoubled
  rw [quoteChars, infix_cons_of_not_mem hopen, infix_append_cons hclose, hdoubled]
  simp

/-- **A sign stands in a unique name** if it stands in one of the segments. -/
theorem Arithmetic.standsIn_joinSegments (op : Arithmetic) (segments : List String) :
    op.standsIn (joinSegments segments) = segments.any op.standsIn := by
  have hdot : '.' ∉ [' ', signOf op, ' '] := by cases op <;> decide
  have hiff : ∀ s : String, op.standsIn s = true ↔ [' ', signOf op, ' '] <:+: s.toList := by
    intro s
    rw [standsIn, toList_pattern, occursIn_eq_true_iff]
  rw [Bool.eq_iff_iff, hiff]
  induction segments with
  | nil => simp [joinSegments]
  | cons segment segments ih =>
    rw [List.any_cons, Bool.or_eq_true, hiff]
    cases segments with
    | nil => simp [toList_joinSegments_singleton, infix_quoteChars]
    | cons next segments =>
      rw [toList_joinSegments_cons_cons, infix_append_cons hdot, infix_quoteChars, ih]

/-! ### Formulas -/

theorem Formula.operator_of_readWith? {op : Arithmetic} {s : String} {f : Formula}
    (h : readWith? op s = some f) : f.operator = op := by
  obtain ⟨_, -, rfl⟩ := Option.map_eq_some_iff.1 h
  rfl

/-- **How a formula is found in a text**: its operator is, and no earlier one. -/
theorem Formula.read_eq_ok_iff {s : String} {f : Formula} : Formula.read s = .ok f ↔
    readWith? f.operator s = some f ∧ ∀ op ∈ f.operator.earlier, readWith? op s = none := by
  have hfound : Formula.read s = .ok f ↔
      Arithmetic.all.findSome? (fun op => readWith? op s) = some f := by
    rw [Formula.read]
    cases Arithmetic.all.findSome? fun op => readWith? op s with
    | none => exact iff_of_false nofun nofun
    | some g =>
      constructor
      · intro h
        exact congrArg some (Except.ok.inj h)
      · intro h
        exact congrArg Except.ok (Option.some.inj h)
  rw [hfound, List.findSome?_eq_some_iff]
  constructor
  · rintro ⟨before, op, after, hall, hop, hbefore⟩
    obtain rfl := operator_of_readWith? hop
    refine ⟨hop, ?_⟩
    -- what comes before the operator are the earlier ones
    have hne : ∀ op ∈ before, decide (op ≠ f.operator) = true := by
      intro op hmem
      refine decide_eq_true ?_
      rintro rfl
      rw [hbefore _ hmem] at hop
      cases hop
    rw [Arithmetic.earlier, hall, List.takeWhile_append_of_pos hne, List.takeWhile_cons_of_neg
      (by simp), List.append_nil]
    exact hbefore
  · rintro ⟨hop, hbefore⟩
    obtain ⟨later, hall⟩ := f.operator.exists_all_eq
    exact ⟨_, _, later, hall, hop, hbefore⟩

/-- Whether no sign is found too early in the text of a formula: the sign of its operator does not
stand in the left operand, and no sign that a text is searched for before stands in an operand. -/
structure Formula.IsLegible (f : Formula) : Prop where
  own : f.operator.standsIn f.lhs = false
  earlier : ∀ op ∈ f.operator.earlier, op.standsIn f.lhs = false ∧ op.standsIn f.rhs = false

instance (f : Formula) : Decidable f.IsLegible :=
  decidable_of_iff (f.operator.standsIn f.lhs = false
      ∧ ∀ op ∈ f.operator.earlier, op.standsIn f.lhs = false ∧ op.standsIn f.rhs = false)
    ⟨fun h => ⟨h.1, h.2⟩, fun h => ⟨h.own, h.earlier⟩⟩

namespace Formula

variable {f : Formula}

private theorem toList_text : f.text.toList
    = f.lhs.toList ++ ' ' :: signOf f.operator :: ' ' :: f.rhs.toList := by
  simp only [Formula.text, String.toList_append, List.append_assoc]
  cases f.operator <;> rfl

/-- A sign that stands in the left operand is found there. -/
private theorem splitAround?_text_of_standsIn {op : Arithmetic}
    (h : op.standsIn f.lhs ≠ false) : ∃ x y, f.lhs.toList = x ++ [' ', signOf op, ' '] ++ y
      ∧ splitAround? [' ', signOf op, ' '] f.text.toList
        = some (x, y ++ ' ' :: signOf f.operator :: ' ' :: f.rhs.toList) := by
  cases hsplit : splitAround? [' ', signOf op, ' '] f.lhs.toList with
  | none => exact absurd (standsIn_eq_false.2 hsplit) h
  | some parts =>
    refine ⟨parts.1, parts.2, eq_append_of_splitAround? hsplit, ?_⟩
    rw [toList_text, splitAround?_append_of_some _ hsplit]

variable (hl : IsBracketed f.lhs) (hr : IsBracketed f.rhs)

include hl hr

/-- An operator is not found in the text of a formula only if it is another one and its sign stands
in no operand. -/
theorem readWith?_text_eq_none_iff {op : Arithmetic} : readWith? op f.text = none ↔
    f.operator ≠ op ∧ op.standsIn f.lhs = false ∧ op.standsIn f.rhs = false := by
  rw [readWith?, toList_pattern, Option.map_eq_none_iff]
  by_cases hlhs : op.standsIn f.lhs = false
  · rw [toList_text, hl.splitAround?_prepend hlhs, hr.splitAround?_sign]
    by_cases e : f.operator = op
    · simp [e]
    · simp [e, hlhs, standsIn_eq_false]
  · obtain ⟨x, y, -, hsplit⟩ := splitAround?_text_of_standsIn hlhs
    simp [hsplit, hlhs]

/-- The operator of a formula is found between the operands unless its sign stands in the left
one. -/
theorem readWith?_operator_text_iff :
    readWith? f.operator f.text = some f ↔ f.operator.standsIn f.lhs = false := by
  rw [readWith?, toList_pattern]
  constructor
  · intro h
    by_contra hlhs
    obtain ⟨x, y, hx, hsplit⟩ := splitAround?_text_of_standsIn hlhs
    -- the left operand that is read would be shorter than the one that was written
    rw [hsplit, Option.map_some, Option.some.injEq] at h
    have hname : trimChars x = f.lhs.toList := by
      rw [← congrArg Formula.lhs h, String.toList_ofList]
    have hle := length_trimChars_le x
    have hlength := congrArg List.length hx
    rw [← hname] at hlength
    simp only [List.length_append, List.length_cons] at hlength
    omega
  · intro hlhs
    rw [toList_text, hl.splitAround?_prepend hlhs, hr.splitAround?_sign, if_pos rfl,
      Option.map_some, Option.map_some]
    simp only [List.append_nil, hl.trimmed, hr.trimmed]

/-- **What is read back are the legible formulas**, if the operands are in brackets. -/
theorem read_text_eq_ok_iff : Formula.read f.text = .ok f ↔ f.IsLegible := by
  rw [read_eq_ok_iff, readWith?_operator_text_iff hl hr]
  constructor
  · rintro ⟨hown, hearlier⟩
    exact ⟨hown, fun op hop => ((readWith?_text_eq_none_iff hl hr).1 (hearlier op hop)).2⟩
  · rintro ⟨hown, hearlier⟩
    refine ⟨hown, fun op hop => (readWith?_text_eq_none_iff hl hr).2 ?_⟩
    exact ⟨(Arithmetic.ne_of_mem_earlier hop).symm, hearlier op hop⟩

end Formula

/-- The text of a formula can always be read, though perhaps as another formula. -/
theorem Formula.exists_read_text (f : Formula) : ∃ g, Formula.read f.text = .ok g := by
  have htext : f.text.toList = f.lhs.toList ++ (" " ++ f.operator.symbol ++ " ").toList
      ++ f.rhs.toList := by
    simp [Formula.text]
  have hsome : (Arithmetic.all.findSome? fun op => readWith? op f.text).isSome = true := by
    rw [List.findSome?_isSome_iff]
    refine ⟨f.operator, by cases f.operator <;> decide, ?_⟩
    rw [readWith?, Option.isSome_map, htext]
    exact splitAround?_isSome _ _
  obtain ⟨g, hg⟩ := Option.isSome_iff_exists.1 hsome
  exact ⟨g, by rw [Formula.read, hg]⟩

/-! ### Operands of any formula -/

/-- Whether a name can stand in the text of a formula: it is in brackets, and no operator stands
between blanks in it. -/
structure IsOperand (name : String) : Prop where
  opens : name.toList.head? = some '['
  closes : name.toList.getLast? = some ']'
  plain : ∀ op : Arithmetic, occursIn (" " ++ op.symbol ++ " ").toList name.toList = false

theorem IsOperand.isBracketed {name : String} (h : IsOperand name) : IsBracketed name :=
  ⟨h.opens, h.closes⟩

/-- **Formulas are read back** from their texts if their operands can stand in formulas. -/
theorem Formula.read_text {f : Formula} (hl : IsOperand f.lhs) (hr : IsOperand f.rhs) :
    Formula.read f.text = .ok f :=
  (read_text_eq_ok_iff hl.isBracketed hr.isBracketed).2
    ⟨hl.plain _, fun op _ => ⟨hl.plain op, hr.plain op⟩⟩

/-- Whether no operator stands between blanks in a name. -/
def IsPlain (name : String) : Prop :=
  ∀ op ∈ Arithmetic.all, occursIn (" " ++ op.symbol ++ " ").toList name.toList = false

instance (name : String) : Decidable (IsPlain name) :=
  inferInstanceAs (Decidable (∀ op ∈ Arithmetic.all, _))

private theorem mem_all (op : Arithmetic) : op ∈ Arithmetic.all := by
  cases op <;> decide

/-- Unique names are in brackets. -/
theorem isBracketed_joinSegments {segments : List String} (h : segments ≠ []) :
    IsBracketed (joinSegments segments) := by
  induction segments with
  | nil => exact absurd rfl h
  | cons s segments ih =>
    cases segments with
    | nil =>
      constructor <;> simp [toList_joinSegments_singleton, quoteChars, List.getLast?_cons]
    | cons t segments =>
      have hlast := (ih (List.cons_ne_nil t segments)).closes
      constructor
      · simp [toList_joinSegments_cons_cons, quoteChars]
      · rw [toList_joinSegments_cons_cons, List.getLast?_append, List.getLast?_cons, hlast]
        rfl

/-- A unique name can stand in a formula if no operator stands between blanks in it. -/
theorem IsPlain.isOperand {segments : List String} (hne : segments ≠ [])
    (h : IsPlain (joinSegments segments)) : IsOperand (joinSegments segments) where
  opens := (isBracketed_joinSegments hne).opens
  closes := (isBracketed_joinSegments hne).closes
  plain op := h op (mem_all op)

/-! ### Formulas between unique names -/

/-- **Whether a formula between unique names is legible** depends on the signs in their segments. -/
theorem Formula.isLegible_iff {f : Formula} {left right : List String}
    (hlhs : f.lhs = joinSegments left) (hrhs : f.rhs = joinSegments right) : f.IsLegible ↔
      (∀ s ∈ left, f.operator.standsIn s = false)
        ∧ ∀ op ∈ f.operator.earlier, ∀ s ∈ left ++ right, op.standsIn s = false := by
  have hany : ∀ (op : Arithmetic) (segments : List String),
      op.standsIn (joinSegments segments) = false ↔ ∀ s ∈ segments, op.standsIn s = false := by
    intro op segments
    rw [Arithmetic.standsIn_joinSegments, List.any_eq_false]
    simp
  simp only [List.forall_mem_append, ← hany, ← hlhs, ← hrhs]
  constructor
  · intro h
    exact ⟨h.own, h.earlier⟩
  · rintro ⟨hown, hearlier⟩
    exact ⟨hown, hearlier⟩

end Datacube
