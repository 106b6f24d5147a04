import Datacube.Proofs.CellValues

/-!
# Measures that are defined by formulas

A statement may define measures by formulas over measures of the cube and over measures that it
defines before.  The formula of a definition is evaluated where the measures of the plan are known
and those of the cube, but not the other definitions.  So the value of a definition is what its
formula says, provided that the definitions to which it refers are shown as well.

## Main definitions

* `MemoryCube.meaning` — the value that a name has according to definitions.
* `nesting` — how deep the formula of a name is nested.
* `MemoryCube.Defines` — the definitions over a cube that can be evaluated.
* `MeasureScope.Valued` — whether the formula of a measure can be evaluated in a scope.

## Main results

* `MeasureScope.exists_valueTo_iff` — a measure has a value if and only if it can be evaluated.
* `MeasureScope.combine_eq_none_iff` — when an operation has no result.
* `MemoryCube.exists_execute_iff_valued` — when a plan has a result.
* `value_of_definition` — **a shown definition has the value that its formula says**.
* `MemoryEngine.definition_value` — **when definitions are executed**, and what their cells show.
-/

namespace Datacube

/-! ### Evaluation in a scope -/

namespace MeasureScope

variable (scope : MeasureScope)

/-- Whether a measure can be evaluated: its formula, and those of its operands in turn, are nested
at most `depth` levels deep and refer to measures of the scope. -/
def Valued : Nat → Member → Prop
  | depth, measure =>
    match measure.formula? with
    | none => True
    | some formula =>
      match depth with
      | 0 => False
      | depth + 1 =>
        (∃ l, scope.operand formula.lhs = .ok l ∧ Valued depth l)
          ∧ ∃ r, scope.operand formula.rhs = .ok r ∧ Valued depth r

variable {scope}

theorem valueTo_of_formula_none {facts : List Fact} {depth : Nat} {a : Member}
    (h : a.formula? = none) :
    scope.valueTo facts depth a = .ok ((a.aggregator?.getD .sum).apply (valuesOf facts a)) := by
  unfold valueTo
  rw [h]

theorem valueTo_succ_eq_ok {facts : List Fact} {depth : Nat} {a : Member} {f : Formula}
    (h : a.formula? = some f) {x : Option Float} : scope.valueTo facts (depth + 1) a = .ok x ↔
      ∃ l r y z, scope.operand f.lhs = .ok l ∧ scope.valueTo facts depth l = .ok y
        ∧ scope.operand f.rhs = .ok r ∧ scope.valueTo facts depth r = .ok z
        ∧ x = combine f.operator y z := by
  rw [valueTo, h]
  dsimp only
  simp only [Outcome.bind_eq_ok, Outcome.pure_eq_ok]
  constructor
  · rintro ⟨l, hl, y, hy, r, hr, z, hz, rfl⟩
    exact ⟨l, r, y, z, hl, hy, hr, hz, rfl⟩
  · rintro ⟨l, r, y, z, hl, hy, hr, hz, rfl⟩
    exact ⟨l, hl, y, hy, r, hr, z, hz, rfl⟩

theorem valued_succ_iff {depth : Nat} {a : Member} {f : Formula} (h : a.formula? = some f) :
    scope.Valued (depth + 1) a ↔ (∃ l, scope.operand f.lhs = .ok l ∧ scope.Valued depth l)
      ∧ ∃ r, scope.operand f.rhs = .ok r ∧ scope.Valued depth r := by
  rw [Valued, h]

/-- **A measure has a value** over any observations if and only if it can be evaluated. -/
theorem exists_valueTo_iff {facts : List Fact} {depth : Nat} {a : Member} :
    (∃ x, scope.valueTo facts depth a = .ok x) ↔ scope.Valued depth a := by
  induction depth generalizing a with
  | zero =>
    unfold valueTo Valued
    cases a.formula? with
    | none => exact iff_of_true ⟨_, rfl⟩ trivial
    | some f =>
      refine iff_of_false ?_ id
      rintro ⟨_, h⟩
      cases h
  | succ depth ih =>
    cases h : a.formula? with
    | none =>
      unfold Valued
      rw [h]
      exact iff_of_true ⟨_, valueTo_of_formula_none h⟩ trivial
    | some f =>
      simp only [valued_succ_iff h, valueTo_succ_eq_ok h, ← ih]
      constructor
      · rintro ⟨x, l, r, y, z, hl, hy, hr, hz, -⟩
        exact ⟨⟨l, hl, y, hy⟩, r, hr, z, hz⟩
      · rintro ⟨⟨l, hl, y, hy⟩, r, hr, z, hz⟩
        exact ⟨_, l, r, y, z, hl, hy, hr, hz, rfl⟩

/-- An operation has no result if and only if an operand has no value or the result is not
finite. -/
theorem combine_eq_none_iff {operator : Arithmetic} {x y : Option Float} :
    combine operator x y = none ↔ x = none ∨ y = none
      ∨ ∃ v w, x = some v ∧ y = some w ∧ (operator.apply v w).isFinite = false := by
  cases x with
  | none => exact iff_of_true rfl (.inl rfl)
  | some v =>
    cases y with
    | none => exact iff_of_true rfl (.inr (.inl rfl))
    | some w =>
      rw [combine]
      by_cases hfinite : (operator.apply v w).isFinite = true
      · rw [if_pos hfinite]
        refine iff_of_false (Option.some_ne_none _) ?_
        rintro (h | h | ⟨v', w', hv, hw, hnot⟩)
        · cases h
        · cases h
        · cases hv
          cases hw
          rw [hfinite] at hnot
          cases hnot
      · rw [if_neg hfinite]
        exact iff_of_true rfl (.inr (.inr ⟨v, w, rfl, rfl, Bool.eq_false_iff.2 hfinite⟩))

theorem operand_eq_ok {name : String} {a : Member} (h : scope.operand name = .ok a) :
    a.label.uniqueName = name ∧ (a ∈ scope.projected ∨ a ∈ scope.declared) := by
  rw [operand] at h
  split at h
  · rename_i found hfound
    cases h
    obtain ⟨hmem, hname⟩ := mem_of_find?_key hfound
    exact ⟨hname, List.mem_append.1 hmem⟩
  · cases h

theorem exists_operand (scope : MeasureScope) {a : Member}
    (h : a ∈ scope.projected ∨ a ∈ scope.declared) :
    ∃ b, scope.operand a.label.uniqueName = .ok b := by
  have hmem : a ∈ scope.projected ++ scope.declared := List.mem_append.2 h
  obtain ⟨b, hb⟩ : ∃ b, ((scope.projected ++ scope.declared).find? fun x =>
      x.label.uniqueName == a.label.uniqueName) = some b := exists_find?_key hmem rfl
  refine ⟨b, ?_⟩
  rw [operand, hb]

end MeasureScope

/-! ### Definitions -/

/-- How deep the formula of a name is nested according to definitions, the newest one first. -/
def nesting : List Member → String → Nat
  | [], _ => 0
  | a :: earlier, name =>
    if a.label.uniqueName = name then
      match a.formula? with
      | some f => max (nesting earlier f.lhs) (nesting earlier f.rhs) + 1
      | none => 0
    else nesting earlier name

/-- Whether every definition, the newest one first, is a formula over given measures without
formulas and over earlier definitions. -/
def DefinedOver (measures : List Member) : List Member → Prop
  | [] => True
  | a :: earlier => (∃ f, a.formula? = some f ∧ ∀ name ∈ [f.lhs, f.rhs],
      (∃ b ∈ measures, b.formula? = none ∧ b.label.uniqueName = name)
        ∨ ∃ b ∈ earlier, b.label.uniqueName = name) ∧ DefinedOver measures earlier

instance DefinedOver.decidable (measures : List Member) :
    (definitions : List Member) → Decidable (DefinedOver measures definitions)
  | [] => inferInstanceAs (Decidable True)
  | a :: earlier =>
    have := DefinedOver.decidable measures earlier
    inferInstanceAs (Decidable ((∃ f ∈ a.formula?, ∀ name ∈ [f.lhs, f.rhs],
      (∃ b ∈ measures, b.formula? = none ∧ b.label.uniqueName = name)
        ∨ ∃ b ∈ earlier, b.label.uniqueName = name) ∧ DefinedOver measures earlier))

namespace MemoryCube

variable (c : MemoryCube)

/-- The value that a name has over observations according to definitions, the newest one first, in
front of the measures of a cube. -/
def meaning (facts : List Fact) : List Member → String → Option Float
  | [], name => (c.measures.find? fun a => a.label.uniqueName == name).bind fun a =>
      (a.aggregator?.getD .sum).apply (MeasureScope.valuesOf facts a)
  | a :: earlier, name =>
    if a.label.uniqueName = name then a.formula?.bind fun f =>
      MeasureScope.combine f.operator (meaning facts earlier f.lhs) (meaning facts earlier f.rhs)
    else meaning facts earlier name

/-- The definitions over a cube that are considered here, in their order: formulas over stored
measures and earlier definitions, with names of their own in which no operator stands, and nested
no deeper than formulas may be. -/
structure Defines (calculated : List Member) : Prop where
  definedOver : DefinedOver c.measures calculated.reverse
  distinct : (calculated.map fun a => a.label.uniqueName).Nodup
  new : ∀ a ∈ calculated, ∀ b ∈ c.measures, a.label.uniqueName ≠ b.label.uniqueName
  named : ∀ a ∈ calculated, a.label.uniqueName ≠ ""
  plain : ∀ a ∈ calculated, ∀ f ∈ a.formula?, IsPlain f.lhs ∧ IsPlain f.rhs
  shallow : ∀ a ∈ calculated, nesting calculated.reverse a.label.uniqueName ≤ maxFormulaDepth

instance (calculated : List Member) : Decidable (c.Defines calculated) :=
  decidable_of_iff (DefinedOver c.measures calculated.reverse
      ∧ (calculated.map fun a => a.label.uniqueName).Nodup
      ∧ (∀ a ∈ calculated, ∀ b ∈ c.measures, a.label.uniqueName ≠ b.label.uniqueName)
      ∧ (∀ a ∈ calculated, a.label.uniqueName ≠ "")
      ∧ (∀ a ∈ calculated, ∀ f ∈ a.formula?, IsPlain f.lhs ∧ IsPlain f.rhs)
      ∧ ∀ a ∈ calculated, nesting calculated.reverse a.label.uniqueName ≤ maxFormulaDepth)
    ⟨fun ⟨h₁, h₂, h₃, h₄, h₅, h₆⟩ => ⟨h₁, h₂, h₃, h₄, h₅, h₆⟩,
      fun h => ⟨h.definedOver, h.distinct, h.new, h.named, h.plain, h.shallow⟩⟩

end MemoryCube

/-- Definitions of other names do not matter for a name. -/
theorem nesting_append {newer earlier : List Member} {name : String}
    (h : ∀ a ∈ newer, a.label.uniqueName ≠ name) :
    nesting (newer ++ earlier) name = nesting earlier name := by
  induction newer with
  | nil => rfl
  | cons a newer ih =>
    rw [List.forall_mem_cons] at h
    rw [List.cons_append, nesting, if_neg h.1, ih h.2]

theorem MemoryCube.meaning_append {c : MemoryCube} {facts : List Fact} {newer earlier : List Member}
    {name : String} (h : ∀ a ∈ newer, a.label.uniqueName ≠ name) :
    c.meaning facts (newer ++ earlier) name = c.meaning facts earlier name := by
  induction newer with
  | nil => rfl
  | cons a newer ih =>
    rw [List.forall_mem_cons] at h
    rw [List.cons_append, meaning, if_neg h.1, ih h.2]

/-- Nothing has a value over no observations. -/
theorem MemoryCube.meaning_nil (c : MemoryCube) (definitions : List Member) (name : String) :
    c.meaning [] definitions name = none := by
  induction definitions generalizing name with
  | nil =>
    rw [meaning]
    cases c.measures.find? fun a => a.label.uniqueName == name <;> rfl
  | cons a earlier ih =>
    rw [meaning]
    split
    · cases a.formula? with
      | none => rfl
      | some f =>
        rw [Option.bind_some, ih]
        rfl
    · exact ih name

theorem DefinedOver.of_append {measures newer earlier : List Member}
    (h : DefinedOver measures (newer ++ earlier)) : DefinedOver measures earlier := by
  induction newer with
  | nil => exact h
  | cons a newer ih => exact ih h.2

/-- The operands of a definition are stored measures or are defined before it. -/
theorem DefinedOver.operand_cases {measures newer earlier : List Member} {a : Member}
    (h : DefinedOver measures (newer ++ a :: earlier)) {f : Formula} (hf : a.formula? = some f)
    {name : String} (hname : name = f.lhs ∨ name = f.rhs) :
    (∃ b ∈ measures, b.formula? = none ∧ b.label.uniqueName = name)
      ∨ ∃ b ∈ earlier, b.label.uniqueName = name := by
  obtain ⟨⟨f', hf', hall⟩, -⟩ := h.of_append
  obtain rfl := Option.some.inj (hf.symm.trans hf')
  exact hall name (by simpa using hname)

/-- Every definition has a formula. -/
theorem DefinedOver.exists_formula {measures newer earlier : List Member} {a : Member}
    (h : DefinedOver measures (newer ++ a :: earlier)) : ∃ f, a.formula? = some f := by
  obtain ⟨⟨f, hf, -⟩, -⟩ := h.of_append
  exact ⟨f, hf⟩

/-- What stands in a part of the definitions is a definition. -/
private theorem mem_of_reverse_eq {calculated newer earlier : List Member}
    (hsplit : calculated.reverse = newer ++ earlier) {a : Member}
    (ha : a ∈ newer ∨ a ∈ earlier) : a ∈ calculated := by
  rw [← List.mem_reverse, hsplit]
  exact List.mem_append.2 ha

/-- A newer definition has another name than an earlier one. -/
private theorem ne_of_reverse_eq {calculated newer earlier : List Member}
    (hdistinct : (calculated.map fun a => a.label.uniqueName).Nodup)
    (hsplit : calculated.reverse = newer ++ earlier) {a b : Member} (ha : a ∈ newer)
    (hb : b ∈ earlier) : a.label.uniqueName ≠ b.label.uniqueName := by
  have hreverse : (calculated.reverse.map fun x => x.label.uniqueName).Nodup := by
    rw [List.map_reverse, List.nodup_reverse]
    exact hdistinct
  rw [hsplit, List.map_append, List.nodup_append] at hreverse
  exact hreverse.2.2 _ (List.mem_map_of_mem ha) _ (List.mem_map_of_mem hb)

/-- Whether a measure of the given name is shown. -/
def Shown (measures : List Member) (name : String) : Prop :=
  ∃ a ∈ measures, a.label.uniqueName = name

/-- Whether every definition is shown to which a shown definition refers. -/
def ShowsOperands (calculated measures : List Member) : Prop :=
  ∀ a ∈ calculated, Shown measures a.label.uniqueName → ∀ f ∈ a.formula?, ∀ b ∈ calculated,
    b.label.uniqueName = f.lhs ∨ b.label.uniqueName = f.rhs → Shown measures b.label.uniqueName

instance (measures : List Member) (name : String) : Decidable (Shown measures name) :=
  inferInstanceAs (Decidable (∃ a ∈ measures, _))

instance (calculated measures : List Member) : Decidable (ShowsOperands calculated measures) :=
  inferInstanceAs (Decidable (∀ a ∈ calculated, _))

/-- The operands of a formula can stand in its text. -/
theorem MemoryCube.Defines.isOperand {c : MemoryCube} {d : CubeDescription} (hc : c.Built d)
    {known : Member → Prop} {definitions : List Expr} {calculated : List Member}
    (hdescribed : Described known definitions calculated) (h : c.Defines calculated) {a : Member}
    (ha : a ∈ calculated) {f : Formula} (hf : a.formula? = some f) :
    IsOperand f.lhs ∧ IsOperand f.rhs := by
  have hoperand : ∀ name, name = f.lhs ∨ name = f.rhs → IsPlain name → IsOperand name := by
    intro name hname hplain
    obtain ⟨newer, earlier, hsplit⟩ := List.append_of_mem (List.mem_reverse.2 ha)
    have hover := h.definedOver
    rw [hsplit] at hover
    rcases hover.operand_cases hf hname with ⟨b, hb, -, rfl⟩ | ⟨b, hb, rfl⟩
    · have hjoin : b.label.uniqueName = joinSegments ["Measures", b.label.name] :=
        congrArg Label.uniqueName (hc.measures b hb).label
      rw [hjoin] at hplain ⊢
      exact hplain.isOperand (List.cons_ne_nil _ _)
    · have hmem : b ∈ calculated := mem_of_reverse_eq hsplit (.inr (List.mem_cons_of_mem _ hb))
      obtain ⟨name, -, -, -, hbname, -⟩ := hdescribed.exists_definition hmem
      have hne := h.named b hmem
      rw [hbname] at hplain hne ⊢
      refine IsPlain.isOperand (fun hnil => hne ?_) hplain
      rw [Identifier.uniqueName, hnil]
      rfl
  exact ⟨hoperand _ (.inl rfl) (h.plain a ha f hf).1, hoperand _ (.inr rfl) (h.plain a ha f hf).2⟩

/-! ### Definitions in a scope -/

/-- **One definition**: what stands for it has the value of its formula if its operands have
their values. -/
theorem valueTo_step {c : MemoryCube} {scope : MeasureScope} {facts : List Fact} {a m : Member}
    (hsame : SameMeasure a m) {f : Formula} (hf : a.formula? = some f)
    (hplain : IsOperand f.lhs ∧ IsOperand f.rhs) {earlier : List Member}
    (hoperand : ∀ name, name = f.lhs ∨ name = f.rhs → ∀ depth, nesting earlier name ≤ depth →
      ∃ o, scope.operand name = .ok o
        ∧ scope.valueTo facts depth o = .ok (c.meaning facts earlier name))
    {depth : Nat} (hdepth : max (nesting earlier f.lhs) (nesting earlier f.rhs) + 1 ≤ depth) :
    scope.valueTo facts depth m = .ok (MeasureScope.combine f.operator
      (c.meaning facts earlier f.lhs) (c.meaning facts earlier f.rhs)) := by
  have hmf : m.formula? = some f := hsame.calculated f hf hplain.1 hplain.2
  cases depth with
  | zero => exact absurd hdepth (Nat.not_succ_le_zero _)
  | succ depth =>
    have hle : max (nesting earlier f.lhs) (nesting earlier f.rhs) ≤ depth :=
      Nat.le_of_succ_le_succ hdepth
    obtain ⟨l, hl, hlvalue⟩ := hoperand f.lhs (.inl rfl) depth ((Nat.le_max_left _ _).trans hle)
    obtain ⟨r, hr, hrvalue⟩ := hoperand f.rhs (.inr rfl) depth ((Nat.le_max_right _ _).trans hle)
    rw [MeasureScope.valueTo_succ_eq_ok hmf]
    exact ⟨l, r, _, _, hl, hlvalue, hr, hrvalue, rfl⟩

section

variable {c : MemoryCube} {d : CubeDescription} {statement : Select Expr} {query : Query}
  {parts : PlanParts} {measures : List Member}
  (hquery : query.OfStatement (fun _ => c.Serves) statement)
  (hobjects : ∀ o ∈ statement.objects, c.Serves o)
  (hparts : parts.Fit (fun _ => c.Serves) query.cube query.axes query.slicer) (hc : c.Built d)
  (hread : List.Forall₂ (fun a b => a.label.uniqueName ≠ ""
    ∧ b.label.uniqueName = a.label.uniqueName ∧ SameMeasure a b) parts.measures measures)
  (hnames : (c.measures.map fun a => a.label.name).Nodup) (hdefs : c.Defines query.calculated)

include hquery hobjects hparts hc hread hdefs

/-- A shown measure with the name of a definition stands for the definition. -/
theorem sameMeasure_of_definition {a m : Member} (ha : a ∈ query.calculated) (hm : m ∈ measures)
    (hname : m.label.uniqueName = a.label.uniqueName) : SameMeasure a m := by
  obtain ⟨b, hb, -, hbm, hsame⟩ := exists_left_of_forall₂ hread hm
  have hba : b.label.uniqueName = a.label.uniqueName := hbm.symm.trans hname
  -- a served measure would have the name of a measure of the cube, which no definition has
  obtain ⟨hcases, hmeasure⟩ := serves_or_calculated_of_projected hquery hobjects hparts hb
  rcases hcases with hserves | hcalculated
  · obtain ⟨b', hb', hsame'⟩ := hc.measure_of_serves hserves hmeasure
    have hname' := hsame'.uniqueName (hc.measures b' hb').uniqueName_ne_empty
    exact absurd (hba.symm.trans hname') (hdefs.new a ha b' hb')
  · rwa [← List.inj_on_of_nodup_map hdefs.distinct hcalculated ha hba]

/-- The operand with the name of a shown definition stands for the definition. -/
theorem operand_of_definition {a : Member} (ha : a ∈ query.calculated)
    (hshown : Shown measures a.label.uniqueName) :
    ∃ m, (MeasureScope.mk measures c.measures).operand a.label.uniqueName = .ok m
      ∧ SameMeasure a m := by
  obtain ⟨b, hb, hname⟩ := hshown
  obtain ⟨m, hm⟩ := MeasureScope.exists_operand ⟨measures, c.measures⟩ (.inl hb)
  rw [hname] at hm
  refine ⟨m, hm, ?_⟩
  obtain ⟨hmname, hmem | hmem⟩ := MeasureScope.operand_eq_ok hm
  · exact sameMeasure_of_definition hquery hobjects hparts hc hread hdefs ha hmem hmname
  · exact absurd hmname.symm (hdefs.new a ha m hmem)

include hnames

/-- The operand with the name of a measure of the cube stands for that measure. -/
theorem operand_of_measure {b : Member} (hb : b ∈ c.measures) :
    ∃ m, (MeasureScope.mk measures c.measures).operand b.label.uniqueName = .ok m
      ∧ SameMeasure b m := by
  obtain ⟨m, hm⟩ := MeasureScope.exists_operand ⟨measures, c.measures⟩ (.inr hb)
  refine ⟨m, hm, ?_⟩
  obtain ⟨hname, hmem | hmem⟩ := MeasureScope.operand_eq_ok hm
  · exact sameMeasure_of_projected hquery hobjects hparts hc hread hnames hb hmem hname
      fun a ha => hdefs.new a ha b hb
  · rw [hc.measure_eq hnames hmem hb hname]
    exact SameMeasure.refl b

/-- **All definitions**: an operand that is a stored measure of the cube or a shown definition has
its value, provided that definitions are shown together with those to which they refer. -/
theorem valueTo_operand (hshows : ShowsOperands query.calculated measures) (facts : List Fact)
    {newer defs : List Member} (hsplit : query.calculated.reverse = newer ++ defs) {name : String}
    (hname : (∃ b ∈ c.measures, b.formula? = none ∧ b.label.uniqueName = name)
      ∨ ∃ a ∈ defs, a.label.uniqueName = name ∧ Shown measures name)
    {depth : Nat} (hdepth : nesting defs name ≤ depth) :
    ∃ m, (MeasureScope.mk measures c.measures).operand name = .ok m
      ∧ (MeasureScope.mk measures c.measures).valueTo facts depth m
        = .ok (c.meaning facts defs name) := by
  induction defs generalizing newer name depth with
  | nil =>
    rcases hname with ⟨b, hb, hstored, rfl⟩ | ⟨a, ha, -⟩
    · obtain ⟨m, hm, hsame⟩ := operand_of_measure hquery hobjects hparts hc hread hnames hdefs hb
      refine ⟨m, hm, ?_⟩
      rw [MeasureScope.valueTo_of_sameMeasure _ facts depth hsame
        (hc.measures b hb).uniqueName_ne_empty hstored (hc.measures b hb).aggregator]
      rw [MemoryCube.meaning, hc.find?_measure hnames hb]
      rfl
    · cases ha
  | cons a earlier ih =>
    have hmem : ∀ b ∈ a :: earlier, b ∈ query.calculated := by
      intro b hb
      exact mem_of_reverse_eq hsplit (.inr hb)
    have ha := hmem a List.mem_cons_self
    have hover := hdefs.definedOver
    rw [hsplit] at hover
    have hsplit' : query.calculated.reverse = (newer ++ [a]) ++ earlier := by
      rw [hsplit, List.append_assoc]
      rfl
    by_cases e : a.label.uniqueName = name
    · -- the newest definition has the name: its operands are evaluated one level deeper
      have hshown : Shown measures a.label.uniqueName := by
        rcases hname with ⟨b, hb, -, hbname⟩ | ⟨b, -, -, hshown⟩
        · exact absurd (e.trans hbname.symm) (hdefs.new a ha b hb)
        · rwa [e]
      obtain ⟨f, hf⟩ := hover.exists_formula
      obtain ⟨m, hm, hsame⟩ :=
        operand_of_definition hquery hobjects hparts hc hread hdefs ha hshown
      rw [nesting, if_pos e, hf] at hdepth
      rw [MemoryCube.meaning, if_pos e, hf, ← e]
      have hplain := hdefs.isOperand hc hquery.calculated ha hf
      refine ⟨m, hm, valueTo_step hsame hf hplain ?_ hdepth⟩
      intro operand hoperand depth' hdepth'
      refine ih hsplit' ((hover.operand_cases hf hoperand).imp_right ?_) hdepth'
      rintro ⟨b, hb, rfl⟩
      exact ⟨b, hb, rfl, hshows a ha hshown f hf b (hmem b (List.mem_cons_of_mem _ hb)) hoperand⟩
    · rw [nesting, if_neg e] at hdepth
      rw [MemoryCube.meaning, if_neg e]
      refine ih hsplit' (hname.imp_right ?_) hdepth
      rintro ⟨b, hb, hbname, hshown⟩
      rcases List.mem_cons.1 hb with rfl | hb
      · exact absurd hbname e
      · exact ⟨b, hb, hbname, hshown⟩

/-- **A shown definition has the value of its formula**, provided that definitions are shown
together with those to which they refer. -/
theorem value_of_definition (hshows : ShowsOperands query.calculated measures) (facts : List Fact)
    {a m : Member} (ha : a ∈ query.calculated) (hm : m ∈ measures)
    (hname : m.label.uniqueName = a.label.uniqueName) {f : Formula} (hf : a.formula? = some f) :
    (MeasureScope.mk measures c.measures).value facts m = .ok (MeasureScope.combine f.operator
      (c.meaning facts query.calculated.reverse f.lhs)
      (c.meaning facts query.calculated.reverse f.rhs)) := by
  obtain ⟨newer, earlier, hsplit⟩ := List.append_of_mem (List.mem_reverse.2 ha)
  have hsplit' : query.calculated.reverse = (newer ++ [a]) ++ earlier := by
    rw [hsplit, List.append_assoc]
    rfl
  have hover := hdefs.definedOver
  rw [hsplit] at hover
  have hcases : ∀ name, name = f.lhs ∨ name = f.rhs →
      (∃ b ∈ c.measures, b.formula? = none ∧ b.label.uniqueName = name)
        ∨ ∃ b ∈ earlier, b.label.uniqueName = name := fun name => hover.operand_cases hf
  -- neither the definition itself nor a newer one has the name of an operand
  have hmeaning : ∀ name, name = f.lhs ∨ name = f.rhs →
      c.meaning facts query.calculated.reverse name = c.meaning facts earlier name := by
    intro name hoperand
    have hother : ∀ b ∈ newer ++ [a], b.label.uniqueName ≠ name := by
      intro b hb
      rcases hcases name hoperand with ⟨b', hb', -, rfl⟩ | ⟨b', hb', rfl⟩
      · exact hdefs.new b (mem_of_reverse_eq hsplit' (.inl hb)) b' hb'
      · exact ne_of_reverse_eq hdefs.distinct hsplit' hb hb'
    rw [hsplit', MemoryCube.meaning_append hother]
  have hnesting : nesting query.calculated.reverse a.label.uniqueName
      = max (nesting earlier f.lhs) (nesting earlier f.rhs) + 1 := by
    have hother : ∀ b ∈ newer, b.label.uniqueName ≠ a.label.uniqueName := by
      intro b hb
      exact ne_of_reverse_eq hdefs.distinct hsplit hb List.mem_cons_self
    rw [hsplit, nesting_append hother, nesting, if_pos rfl, hf]
  have hshown : Shown measures a.label.uniqueName := ⟨m, hm, hname⟩
  have hsame := sameMeasure_of_definition hquery hobjects hparts hc hread hdefs ha hm hname
  rw [hmeaning _ (.inl rfl), hmeaning _ (.inr rfl)]
  refine valueTo_step hsame hf (hdefs.isOperand hc hquery.calculated ha hf) ?_
    (hnesting ▸ hdefs.shallow a ha)
  intro name hoperand depth hdepth
  refine valueTo_operand hquery hobjects hparts hc hread hnames hdefs hshows facts hsplit'
    ((hcases name hoperand).imp_right ?_) hdepth
  rintro ⟨b, hb, rfl⟩
  have hb' : b ∈ query.calculated := mem_of_reverse_eq hsplit' (.inr hb)
  exact ⟨b, hb, rfl, hshows a ha hshown f hf b hb' hoperand⟩

/-- **Which shown measures have values**: all of them if and only if every definition is shown to
which a shown one refers, and the shown measures that are no definitions can be evaluated. -/
theorem valued_iff_showsOperands :
    (∀ m ∈ measures, (MeasureScope.mk measures c.measures).Valued maxFormulaDepth m) ↔
      ShowsOperands query.calculated measures
        ∧ ∀ m ∈ measures, (∀ a ∈ query.calculated, a.label.uniqueName ≠ m.label.uniqueName) →
          (MeasureScope.mk measures c.measures).Valued maxFormulaDepth m := by
  constructor
  · refine fun h => ⟨?_, fun m hm _ => h m hm⟩
    rintro a ha ⟨m, hm, hname⟩ f hf b hb hoperand
    have hsame := sameMeasure_of_definition hquery hobjects hparts hc hread hdefs ha hm hname
    obtain ⟨hl, hr⟩ := hdefs.isOperand hc hquery.calculated ha hf
    have hvalued := h m hm
    rw [maxFormulaDepth, MeasureScope.valued_succ_iff (hsame.calculated f hf hl hr)] at hvalued
    -- what is found under the name of a definition is shown
    have hfound : ∀ {o}, (MeasureScope.mk measures c.measures).operand b.label.uniqueName = .ok o →
        Shown measures b.label.uniqueName := by
      intro o ho
      obtain ⟨honame, hmem | hmem⟩ := MeasureScope.operand_eq_ok ho
      · exact ⟨o, hmem, honame⟩
      · exact absurd honame.symm (hdefs.new b hb o hmem)
    obtain ⟨⟨l, hl, -⟩, r, hr, -⟩ := hvalued
    rcases hoperand with e | e
    · exact hfound (e ▸ hl)
    · exact hfound (e ▸ hr)
  · rintro ⟨hshows, hother⟩ m hm
    by_cases h : ∀ a ∈ query.calculated, a.label.uniqueName ≠ m.label.uniqueName
    · exact hother m hm h
    -- a definition has a value, say over no observations, so it can be evaluated
    · push Not at h
      obtain ⟨a, ha, hname⟩ := h
      obtain ⟨newer, earlier, hsplit⟩ := List.append_of_mem (List.mem_reverse.2 ha)
      have hover := hdefs.definedOver
      rw [hsplit] at hover
      obtain ⟨f, hf⟩ := hover.exists_formula
      have hvalue := value_of_definition hquery hobjects hparts hc hread hnames hdefs hshows [] ha
        hm hname.symm hf
      exact MeasureScope.exists_valueTo_iff.1 ⟨_, hvalue⟩

end

/-! ### Executions -/

/-- What is served as a member has a unique name and belongs to a named cube. -/
theorem MemoryCube.names_of_serves {c : MemoryCube} {a : Member} (h : c.Serves (.member a)) :
    a.label.uniqueName ≠ "" ∧ a.cubeName ≠ "" := by
  rcases h with ⟨b, -, hread⟩ | ⟨b, -, ordinal, hread⟩
  · obtain ⟨-, -, hcube, -⟩ := Member.read_eq_ok.1 hread
    exact ⟨(Member.label_of_read hread).2.1, Row.ne_empty_of_text? hcube⟩
  · exact (label_of_readMeasure hread).2

/-- A served member can be written, read and resolved. -/
theorem MemoryCube.exists_resolveMember {c : MemoryCube} {d : CubeDescription} (hc : c.Built d)
    {a b : Member} (h : c.Serves (.member a)) (ha : a.isMeasure = false)
    (hread : Record.read (rowOf a) = .ok b) : ∃ r, c.resolveMember b = .ok r := by
  obtain ⟨⟨row, hrow⟩, m, hm, hname, -⟩ := hc.member_of_serves h ha
  obtain rfl := Except.ok.inj ((Member.read_rowOf hrow ha).symm.trans hread)
  obtain ⟨r, hr⟩ : ∃ r, c.member? a.label.uniqueName = some r :=
    exists_find?_key (List.mem_reverse.2 hm) hname.symm
  refine ⟨r, ?_⟩
  rw [resolveMember]
  dsimp only
  rw [hr]

/-- **A plan has a result** if and only if there are no observations in any cell or all measures can
be evaluated.  The observations of a cell do not matter for whether a measure can be. -/
theorem MemoryCube.exists_execute_iff_valued {c : MemoryCube} {plan : Plan} {q : PlanParameters}
    {dice : List (List Member)} (hq : PlanParameters.ofPlan plan = .ok q)
    (hdice : (q.dice.mapM fun tuple => tuple.mapM c.resolveMember) = .ok dice) :
    (∃ rows, c.execute plan = .ok rows) ↔ (∀ key, c.cellFacts dice q.levels key = [])
      ∨ ∀ m ∈ q.measures, (MeasureScope.mk q.measures c.measures).Valued maxFormulaDepth m := by
  rw [exists_execute hq hdice]
  simp only [MeasureScope.value, MeasureScope.exists_valueTo_iff]
  constructor
  · intro h
    by_cases hempty : ∀ key, c.cellFacts dice q.levels key = []
    · exact .inl hempty
    · push Not at hempty
      obtain ⟨key, hne⟩ := hempty
      exact .inr (h key hne)
  · rintro (hempty | h) key hne
    · exact absurd (hempty key) hne
    · exact h

section

variable {c : MemoryCube} {d : CubeDescription} {statement : Select Expr} {query : Query}
  {parts : PlanParts} (hquery : query.OfStatement (fun _ => c.Serves) statement)
  (hobjects : ∀ o ∈ statement.objects, c.Serves o)
  (hparts : parts.Fit (fun _ => c.Serves) query.cube query.axes query.slicer) (hc : c.Built d)
  (hdefs : c.Defines query.calculated)

include hquery hobjects hdefs in
/-- Every projected measure can be written and read. -/
theorem exists_readMeasure_of_projected
    (hparts : parts.Fit (fun _ => c.Serves) query.cube query.axes query.slicer) {a : Member}
    (ha : a ∈ parts.measures) (ordinal : Nat) :
    ∃ b, readMeasure (measureRowOf a) ordinal = .ok b := by
  have hknown : ∀ a, statement.Knows (fun _ => c.Serves) query.cube (.member a) → a.cubeName ≠ "" :=
    fun a ha => (MemoryCube.names_of_serves (ha.elim id (hobjects _))).2
  have hnames : a.label.uniqueName ≠ "" ∧ a.cubeName ≠ "" := by
    rcases (serves_or_calculated_of_projected hquery hobjects hparts ha).1 with
      hserves | hcalculated
    · exact MemoryCube.names_of_serves hserves
    -- a definition belongs to the cube of its first operand
    · exact ⟨hdefs.named a hcalculated, hquery.calculated.forall hknown
        (fun _ _ _ _ _ _ _ _ hx _ => hx) a hcalculated⟩
  exact exists_readMeasure_iff.2 ⟨.inr hnames.1, hnames.2⟩

include hquery hobjects hparts hc hdefs in
/-- **The parameters of a plan** over a cube can be read and resolved. -/
theorem exists_parameters : ∃ q dice,
    PlanParameters.ofPlan (parts.plan query.cube query.slicer) = .ok q
      ∧ (q.dice.mapM fun tuple => tuple.mapM c.resolveMember) = .ok dice := by
  have hslicer : ∀ position ∈ dicePositions query.slicer, ∀ a ∈ position.dimensionMembers,
      c.Serves (.member a) ∧ a.isMeasure = false := by
    intro position hposition a ha
    rw [dicePositions_eq_filter] at hposition
    exact serves_of_mem_slicer hquery hobjects (List.mem_filter.1 hposition).1 ha
  -- levels and members were read from rows, so they are read back; measures are by their names
  have hlevel : ∀ l ∈ parts.levels, ∃ l', Record.read (rowOf l) = .ok l' := fun l hl =>
    have ⟨_, _, hread⟩ := hparts.listed l hl
    ⟨l, Level.read_rowOf hread⟩
  have htuple : ∀ position ∈ dicePositions query.slicer, ∃ tuple : List Member,
      List.Forall₂ (fun a b => Record.read (rowOf a) = .ok b) position.dimensionMembers tuple := by
    intro position hposition
    refine exists_forall₂ fun a ha => ?_
    obtain ⟨hserves, hmeasure⟩ := hslicer position hposition a ha
    obtain ⟨⟨row, hrow⟩, -⟩ := hc.member_of_serves hserves hmeasure
    exact ⟨_, Member.read_rowOf hrow hmeasure⟩
  obtain ⟨levels, hlevels⟩ := exists_forall₂ hlevel
  obtain ⟨tuples, htuples⟩ := exists_forall₂ htuple
  obtain ⟨measures, hmeasures⟩ := exists_readMeasures fun a ha =>
    exists_readMeasure_of_projected hquery hobjects hdefs hparts ha
  have hresolve : ∀ tuple ∈ tuples, ∃ resolved, tuple.mapM c.resolveMember = .ok resolved := by
    intro tuple htuple
    obtain ⟨position, hposition, hread⟩ := exists_left_of_forall₂ htuples htuple
    have hmember : ∀ b ∈ tuple, ∃ r, c.resolveMember b = .ok r := by
      intro b hb
      obtain ⟨a, ha, hread⟩ := exists_left_of_forall₂ hread hb
      obtain ⟨hserves, hmeasure⟩ := hslicer position hposition a ha
      exact MemoryCube.exists_resolveMember hc hserves hmeasure hread
    obtain ⟨resolved, hresolved⟩ := exists_forall₂ hmember
    exact ⟨resolved, Outcome.mapM_eq_ok.2 hresolved⟩
  obtain ⟨dice, hdice⟩ := exists_forall₂ hresolve
  exact ⟨⟨measures, tuples, levels⟩, dice, PlanParts.ofPlan_eq_ok.2 ⟨hlevels, htuples, hmeasures⟩,
    Outcome.mapM_eq_ok.2 hdice⟩

end

/-! ### Connections -/

namespace MemoryEngine

/-- **The values of definitions.**  An engine serves a cube that was built from a description, names
tell its measures apart, and no other cube answers to its name.  After any uses of a connection to
that engine, for every statement over the cube that can be evaluated and planned and whose
definitions are formulas over stored measures and earlier definitions: the plan has a result if and
only if there are no observations in any cell, or every definition is projected to which a projected
one refers and the other projected measures can be evaluated.  Whenever there is a result, every
cell whose measure is a definition shows the value of its formula, and it is empty if and only if an
operand has no value or the value of the formula is not finite. -/
theorem definition_value {d : CubeDescription} {c : MemoryCube} (hbuild : d.build = .ok c)
    (hnames : (c.measures.map fun a => a.label.name).Nodup) {catalogName schemaName : String}
    {cubes : List MemoryCube} (hc : c ∈ cubes)
    (honly : ∀ c' ∈ cubes, isNamed c'.cube c.cube.label.name = true → c' = c) (config : Config)
    (calls : List Call) {statement : Select Expr} (hobjects : ∀ o ∈ statement.objects, c.Serves o)
    {query : Query} {plan : Plan}
    (h : ((((ofCubes catalogName schemaName cubes).connection config).after calls).run
      (·.planned statement)).1 = .ok (query, plan))
    (hcube : query.cube.label.name = c.cube.label.name) (hdefs : c.Defines query.calculated) :
    ∃ q dice, PlanParameters.ofPlan plan = .ok q
      ∧ (q.dice.mapM fun tuple => tuple.mapM c.resolveMember) = .ok dice
      ∧ ((∃ rows s, (ofCubes catalogName schemaName cubes).answer (.execute plan) = .ok rows
            ∧ CellSet.ofResult query plan rows = .ok s) ↔
          (∀ key, c.cellFacts dice q.levels key = [])
            ∨ ShowsOperands query.calculated q.measures
              ∧ ∀ m ∈ q.measures,
                (∀ a ∈ query.calculated, a.label.uniqueName ≠ m.label.uniqueName) →
                (MeasureScope.mk q.measures c.measures).Valued maxFormulaDepth m)
      ∧ ∀ rows s, (ofCubes catalogName schemaName cubes).answer (.execute plan) = .ok rows →
          CellSet.ofResult query plan rows = .ok s →
        ∀ coordinates, List.Forall₂ (· < ·) coordinates s.sizes →
          ((s.positionsAt coordinates).flatMap Position.measures).length < 2 →
        ∀ m, s.measureAt? (s.positionsAt coordinates) = some m →
        ∀ a ∈ query.calculated, a.label.uniqueName = m.label.uniqueName → ∀ f ∈ a.formula?,
        ∀ y z,
          c.meaning (c.cellFacts dice q.levels (CellSet.keyOf (s.positionsAt coordinates)))
            query.calculated.reverse f.lhs = y →
          c.meaning (c.cellFacts dice q.levels (CellSet.keyOf (s.positionsAt coordinates)))
            query.calculated.reverse f.rhs = z →
          (s.cell coordinates).map Cell.text?
              = .ok ((MeasureScope.combine f.operator y z).map numberText)
            ∧ ((s.cell coordinates).map Cell.text? = .ok none ↔ y = none ∨ z = none
              ∨ ∃ v w, y = some v ∧ z = some w ∧ (f.operator.apply v w).isFinite = false) := by
  have hbuilt := CubeDescription.built hbuild
  obtain ⟨hquery, parts, hparts, rfl, hanswer⟩ := planned_on honly hc hobjects h hcube
  obtain ⟨q, dice, hq, hdice⟩ := exists_parameters hquery hobjects hparts hbuilt hdefs
  obtain ⟨-, -, hmeasures⟩ := PlanParts.ofPlan_eq_ok.1 hq
  have hisNamed := fun o => MemoryCube.isNamed_of_serves (c := c) (o := o)
  have hkeyed : ∀ a, ¬ statement.Unkeyed a :=
    Select.not_unkeyed fun o ho => hisNamed o (hobjects o ho)
  have hread := forall₂_projected hquery hparts hisNamed hkeyed hmeasures
  have hvalued := valued_iff_showsOperands hquery hobjects hparts hbuilt hread hnames hdefs
  have hexecute := MemoryCube.exists_execute_iff_valued hq hdice
  refine ⟨q, dice, hq, hdice, ?_, ?_⟩
  · rw [← hvalued, ← hexecute, hanswer]
    constructor
    · rintro ⟨rows, s, hrows, -⟩
      exact ⟨rows, hrows⟩
    · rintro ⟨rows, hrows⟩
      obtain ⟨s, hs⟩ := CellSet.exists_ofResult hparts hq hdice hrows
      exact ⟨rows, s, hrows, hs⟩
  · rintro rows s hrows hs coordinates hcoordinates hone m hm a ha hname f hf _ _ rfl rfl
    rw [hanswer] at hrows
    have hsound := sound_ofResult hquery hparts hisNamed hs
    have hkey : m.label.uniqueName ≠ "" := fun hu =>
      (exists_unkeyed hquery hparts hisNamed hs hone hm hu).elim hkeyed
    obtain ⟨b, hb, hbname, htext⟩ :=
      CellSet.text_cell hparts hq hdice hrows hs hsound hcoordinates hone hm hkey
    have hcell : (s.cell coordinates).map Cell.text? = .ok ((MeasureScope.combine f.operator
        (c.meaning (c.cellFacts dice q.levels (CellSet.keyOf (s.positionsAt coordinates)))
          query.calculated.reverse f.lhs)
        (c.meaning (c.cellFacts dice q.levels (CellSet.keyOf (s.positionsAt coordinates)))
          query.calculated.reverse f.rhs)).map numberText) := by
      rcases htext with ⟨hempty, htext⟩ | ⟨hne, x, hx, htext⟩
      · rw [htext, hempty, MemoryCube.meaning_nil, MemoryCube.meaning_nil]
        rfl
      · have hall : ∀ m ∈ q.measures,
            (MeasureScope.mk q.measures c.measures).Valued maxFormulaDepth m := by
          rcases hexecute.1 ⟨rows, hrows⟩ with hempty | hall
          · exact absurd (hempty _) hne
          · exact hall
        have hvalue := value_of_definition hquery hobjects hparts hbuilt hread hnames hdefs
          (hvalued.1 hall).1 (c.cellFacts dice q.levels (CellSet.keyOf (s.positionsAt coordinates)))
          ha hb (hbname.trans hname.symm) hf
        rw [hvalue] at hx
        cases hx
        exact htext
    refine ⟨hcell, ?_⟩
    rw [hcell, ← MeasureScope.combine_eq_none_iff, Except.ok.injEq, Option.map_eq_none_iff]

/-! ### A definition over a definition -/

/-- A definition whose first operand is twice the amount. -/
def timesAmount : Expr :=
  .calculatedMember ⟨["Measures", "Product"]⟩
    (.call "*" .binary [named ["Measures", "Doubled"], named ["Measures", "Amount"]]) []

/-- A statement that defines two measures and shows some. -/
def productStatement (shown : List (List String)) : Select Expr where
  definitions := [doubledAmount, timesAmount]
  axes := [⟨.index 0, false, .call "\x7b\x7d" .braces (shown.map named)⟩]
  source := named ["Sales"]
  slicer := none

/-- The query and the plan of the statement over an engine that serves the sales. -/
def plannedProduct (shown : List (List String)) : Outcome (Query × Plan) :=
  ((((ofCubes "LdCatalog" "LdSchema" [salesCube]).connection {}).after []).run
    (·.planned (productStatement shown))).1

set_option maxRecDepth 100000 in
theorem isOk_planned_product :
    (plannedProduct [["Measures", "Product"], ["Measures", "Doubled"]]).isOk = true := by
  decide +kernel

/-- The query and the plan if both definitions are shown. -/
def productQuery : Query × Plan := (plannedProduct _).get isOk_planned_product

set_option maxRecDepth 100000 in
/-- If both definitions are shown, there is a result, and the first cell is twice the amount times
the amount. -/
theorem definition_value_product :
    plannedProduct [["Measures", "Product"], ["Measures", "Doubled"]]
        = .ok (productQuery.1, productQuery.2)
      ∧ salesCube.Defines productQuery.1.calculated
      ∧ ∃ rows s q dice,
        (ofCubes "LdCatalog" "LdSchema" [salesCube]).answer (.execute productQuery.2) = .ok rows
        ∧ CellSet.ofResult productQuery.1 productQuery.2 rows = .ok s
        ∧ PlanParameters.ofPlan productQuery.2 = .ok q
        ∧ (q.dice.mapM fun tuple => tuple.mapM salesCube.resolveMember) = .ok dice
        ∧ (s.cell [0]).map Cell.text? = .ok ((MeasureScope.combine .multiply
          (salesCube.meaning (salesCube.cellFacts dice q.levels (CellSet.keyOf (s.positionsAt [0])))
            productQuery.1.calculated.reverse "[Measures].[Doubled]")
          (salesCube.meaning (salesCube.cellFacts dice q.levels (CellSet.keyOf (s.positionsAt [0])))
            productQuery.1.calculated.reverse "[Measures].[Amount]")).map numberText) := by
  have hplanned : plannedProduct [["Measures", "Product"], ["Measures", "Doubled"]]
      = .ok (productQuery.1, productQuery.2) := by
    rw [Prod.eta]
    exact Outcome.eq_ok_get isOk_planned_product
  -- all that is projected are the two definitions, and the first cell has the second as its measure
  obtain ⟨hcube, hnames, hdefines, ⟨a, ha, haname, hf⟩, hshown, hcell⟩ :
      productQuery.1.cube.label.name = salesCube.cube.label.name
        ∧ (salesCube.measures.map fun a => a.label.name).Nodup
        ∧ salesCube.Defines productQuery.1.calculated
        ∧ (∃ a ∈ productQuery.1.calculated, a.label.uniqueName = "[Measures].[Product]"
          ∧ a.formula? = some ⟨.multiply, "[Measures].[Doubled]", "[Measures].[Amount]"⟩)
        ∧ (PlanParameters.ofPlan productQuery.2).map (fun q =>
          decide (ShowsOperands productQuery.1.calculated q.measures
            ∧ ∀ m ∈ q.measures, Shown productQuery.1.calculated m.label.uniqueName)) = .ok true
        ∧ ((ofCubes "LdCatalog" "LdSchema" [salesCube]).answer (.execute productQuery.2)
          >>= CellSet.ofResult productQuery.1 productQuery.2).map (fun s =>
            decide (List.Forall₂ (· < ·) [0] s.sizes
              ∧ ((s.positionsAt [0]).flatMap Position.measures).length < 2
              ∧ ∃ m ∈ s.measureAt? (s.positionsAt [0]),
                m.label.uniqueName = "[Measures].[Product]")) = .ok true := by
    decide +kernel
  obtain ⟨q, dice, hq, hdice, hresult, hcells⟩ :=
    definition_value build_sales hnames List.mem_cons_self (fun _ hc _ => List.mem_singleton.1 hc)
      {} [] (fun _ ho => absurd ho List.not_mem_nil) hplanned hcube hdefines
  rw [hq] at hshown
  obtain ⟨hshows, hall⟩ := of_decide_eq_true (Except.ok.inj hshown)
  have hothers : ∀ m ∈ q.measures,
      (∀ a ∈ productQuery.1.calculated, a.label.uniqueName ≠ m.label.uniqueName) →
      (MeasureScope.mk q.measures salesCube.measures).Valued maxFormulaDepth m := by
    intro m hm hother
    obtain ⟨a, ha, hname⟩ := hall m hm
    exact absurd hname (hother a ha)
  obtain ⟨rows, s, hrows, hs⟩ := hresult.2 (.inr ⟨hshows, hothers⟩)
  rw [Outcome.bind_eq_ok.2 ⟨rows, hrows, hs⟩] at hcell
  obtain ⟨hcoordinates, hone, m, hm, hname⟩ := of_decide_eq_true (Except.ok.inj hcell)
  refine ⟨hplanned, hdefines, rows, s, q, dice, hrows, hs, hq, hdice, ?_⟩
  have htext := hcells rows s hrows hs [0] hcoordinates hone m hm a ha (haname.trans hname.symm) _
    hf _ _ rfl rfl
  exact htext.1

set_option maxRecDepth 100000 in
theorem isOk_planned_hidden : (plannedProduct [["Measures", "Product"]]).isOk = true := by
  decide +kernel

/-- The query and the plan if only the second definition is shown. -/
def hiddenQuery : Query × Plan := (plannedProduct _).get isOk_planned_hidden

set_option maxRecDepth 100000 in
/-- If only the second definition is shown, there is a plan that cannot be executed, because the
first one is not found. -/
theorem not_executed_of_hidden_operand :
    plannedProduct [["Measures", "Product"]] = .ok hiddenQuery
      ∧ salesCube.Defines hiddenQuery.1.calculated
      ∧ (ofCubes "LdCatalog" "LdSchema" [salesCube]).answer (.execute hiddenQuery.2)
        = .error (.unresolvedIdentifier "[Measures].[Doubled]") := by
  refine ⟨Outcome.eq_ok_get isOk_planned_hidden, ?_, ?_⟩
  · decide +kernel
  · decide +kernel

end MemoryEngine

end Datacube
