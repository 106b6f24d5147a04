import Datacube.Proofs.Formulas

/-!
# Formulas of the measures of a cube

When a cube is built, the left operand of every formula must name a measure that is defined before.
The right operand may be any name: that of a later measure, that of the measure itself, or that of
none.  So the formulas of a cube need not have values.  If the right operands name earlier measures
as well, formulas have values as long as they are not nested too deeply.

## Main definitions

* `DefinedBefore` — whether an operand of every formula names a measure that is defined before.
* `Plan.Projects` — whether a plan projects measures of a cube only.

## Main results

* `MemoryCube.definedBefore_lhs` — **left operands are defined before** the formulas.
* `MeasureScope.operand_valued_iff` — **how deep a formula may be nested** to have a value.
* `MemoryCube.formulas_executed` — when a plan over measures of a cube has a result.
* `MemoryCube.not_executed` — a cube that is built although a formula refers to no measure.
-/

namespace Datacube

/-! ### Operands -/

/-- Whether an operand of the formula of every measure, the newest one first, names an older one. -/
def DefinedBefore (operand : Formula → String) : List Member → Prop
  | [] => True
  | a :: earlier => (∀ f ∈ a.formula?, ∃ b ∈ earlier, b.label.uniqueName = operand f)
      ∧ DefinedBefore operand earlier

instance DefinedBefore.decidable (operand : Formula → String) :
    (measures : List Member) → Decidable (DefinedBefore operand measures)
  | [] => inferInstanceAs (Decidable True)
  | a :: earlier =>
    have := DefinedBefore.decidable operand earlier
    inferInstanceAs (Decidable ((∀ f ∈ a.formula?, ∃ b ∈ earlier, b.label.uniqueName = operand f)
      ∧ DefinedBefore operand earlier))

theorem DefinedBefore.of_append {operand : Formula → String} {newer earlier : List Member}
    (h : DefinedBefore operand (newer ++ earlier)) : DefinedBefore operand earlier := by
  induction newer with
  | nil => exact h
  | cons a newer ih => exact ih h.2

/-- An operand that is defined before is one of the measures. -/
theorem DefinedBefore.exists_measure {operand : Formula → String} {measures : List Member}
    (h : DefinedBefore operand measures) {a : Member} (ha : a ∈ measures) {f : Formula}
    (hf : a.formula? = some f) : ∃ b ∈ measures, b.label.uniqueName = operand f := by
  obtain ⟨newer, earlier, rfl⟩ := List.append_of_mem ha
  obtain ⟨b, hb, hname⟩ := h.of_append.1 f hf
  exact ⟨b, List.mem_append_right _ (List.mem_cons_of_mem _ hb), hname⟩

/-- **One more measure**: its left operand is looked up among the measures made so far. -/
private theorem definedBefore_addMeasure {level : Level} {measures result : List Member}
    {d : MeasureDescription} (hmeasures : DefinedBefore Formula.lhs measures.reverse)
    (h : addMeasure level measures d = .ok result) : DefinedBefore Formula.lhs result.reverse := by
  cases d with
  | stored name aggregator =>
    cases h
    rw [List.reverse_append]
    exact ⟨nofun, hmeasures⟩
  | calculated name formula =>
    rw [addMeasure] at h
    split at h
    · rename_i sibling hsibling
      cases h
      obtain ⟨hmem, hname⟩ : sibling ∈ measures ∧ sibling.label.uniqueName = formula.lhs :=
        mem_of_find?_key hsibling
      rw [List.reverse_append]
      refine ⟨?_, hmeasures⟩
      rintro f ⟨⟩
      exact ⟨sibling, List.mem_reverse.2 hmem, hname⟩
    · cases h

/-- **Left operands are defined before** the formulas of a cube that is built. -/
theorem MemoryCube.definedBefore_lhs {d : CubeDescription} {c : MemoryCube}
    (h : d.build = .ok c) : DefinedBefore Formula.lhs c.measures.reverse := by
  obtain ⟨q, measures, facts, -, hmeasures, -, rfl⟩ := CubeDescription.exists_of_build h
  have hnil : DefinedBefore Formula.lhs (List.reverse []) := trivial
  exact Outcome.assurance.foldlM (fun _ ms => DefinedBefore Formula.lhs (List.reverse ms))
    (fun _ _ _ _ hms _ h => definedBefore_addMeasure hms h) hnil measures hmeasures

/-! ### Depth -/

namespace MeasureScope

variable {scope : MeasureScope}

/-- What has no formula can be evaluated to any depth. -/
theorem valued_of_formula_none {depth : Nat} {a : Member} (h : a.formula? = none) :
    scope.Valued depth a := by
  rw [Valued, h]
  trivial

/-- Whether a measure can be evaluated depends on its formula. -/
theorem valued_congr {depth : Nat} {a b : Member} (h : a.formula? = b.formula?) :
    scope.Valued depth a ↔ scope.Valued depth b := by
  unfold Valued
  rw [h]

/-- **How deep a formula may be nested.**  If every name of a measure stands for its formula, an
operand can be evaluated to a depth if and only if its formula is not nested deeper. -/
theorem operand_valued_iff {measures : List Member}
    (hscope : ∀ a ∈ measures, ∃ m, scope.operand a.label.uniqueName = .ok m
      ∧ m.formula? = a.formula?)
    (hlhs : DefinedBefore Formula.lhs measures) (hrhs : DefinedBefore Formula.rhs measures)
    {name : String} (hname : ∃ a ∈ measures, a.label.uniqueName = name) {depth : Nat} :
    (∃ m, scope.operand name = .ok m ∧ scope.Valued depth m) ↔ nesting measures name ≤ depth := by
  induction measures generalizing name depth with
  | nil =>
    obtain ⟨a, ha, -⟩ := hname
    cases ha
  | cons a earlier ih =>
    obtain ⟨⟨m, hm, hformula⟩, hscope⟩ := List.forall_mem_cons.1 hscope
    rw [nesting]
    by_cases e : a.label.uniqueName = name
    · have hiff : (∃ m, scope.operand name = .ok m ∧ scope.Valued depth m)
          ↔ scope.Valued depth m := by
        rw [← e, hm]
        constructor
        · rintro ⟨_, ⟨⟩, h⟩
          exact h
        · exact fun h => ⟨m, rfl, h⟩
      rw [hiff, if_pos e]
      cases hf : a.formula? with
      | none =>
        rw [hf] at hformula
        exact iff_of_true (valued_of_formula_none hformula) (Nat.zero_le depth)
      | some f =>
        rw [hf] at hformula
        cases depth with
        | zero =>
          refine iff_of_false ?_ (Nat.not_succ_le_zero _)
          rw [Valued, hformula]
          exact id
        | succ depth =>
          -- the operands are evaluated one level deeper, among the measures before this one
          rw [valued_succ_iff hformula, ih hscope hlhs.2 hrhs.2 (hlhs.1 f hf),
            ih hscope hlhs.2 hrhs.2 (hrhs.1 f hf), ← Nat.max_le]
          exact Nat.succ_le_succ_iff.symm
    · rw [if_neg e]
      refine ih hscope hlhs.2 hrhs.2 ?_
      obtain ⟨b, hb, hbname⟩ := hname
      rcases List.mem_cons.1 hb with rfl | hb
      · exact absurd hbname e
      · exact ⟨b, hb, hbname⟩

end MeasureScope

/-! ### Plans over measures of a cube -/

/-- Whether a measure has the unique name and the formula of a measure of a cube. -/
def MemoryCube.Has (c : MemoryCube) (m : Member) : Prop :=
  ∃ a ∈ c.measures, m.label.uniqueName = a.label.uniqueName ∧ m.formula? = a.formula?

/-- Whether a plan projects measures of a cube only. -/
def Plan.Projects (plan : Plan) (c : MemoryCube) : Prop :=
  ∀ rows, .project rows ∈ plan.operators →
    ∃ measures, rows = measureRowSet measures ∧ ∀ m ∈ measures, c.Has m

namespace MemoryCube

variable {c : MemoryCube} {d : CubeDescription} {plan : Plan} {q : PlanParameters}

/-- What a plan over measures of a cube asks for is read from rows of such measures. -/
private theorem exists_projected (hplan : plan.Projects c) (hq : PlanParameters.ofPlan plan = .ok q)
    {b : Member} (hb : b ∈ q.measures) :
    ∃ m ordinal, c.Has m ∧ readMeasure (measureRowOf m) ordinal = .ok b := by
  have hread : ∀ b ∈ q.measures,
      ∃ m ordinal, c.Has m ∧ readMeasure (measureRowOf m) ordinal = .ok b := by
    refine Outcome.assurance.foldlM (fun _ q => ∀ b ∈ PlanParameters.measures q,
        ∃ m ordinal, c.Has m ∧ readMeasure (measureRowOf m) ordinal = .ok b) ?_ ?_ q hq
    · intro op hop _ q₁ hq₁ q₂ h
      cases op with
      | project rows =>
        obtain ⟨measures, rfl, hhas⟩ := hplan rows hop
        obtain ⟨result, hresult, h⟩ := Outcome.bind_eq_ok.1 h
        cases h
        intro b hb
        obtain ⟨m, hm, ordinal, hread⟩ :=
          exists_left_of_forall₂ (forall₂_readMeasures_measureRowSet hresult) hb
        exact ⟨m, ordinal, hhas m hm, hread⟩
      | slice =>
        cases h
        exact hq₁
      | dice | rollup =>
        obtain ⟨_, -, h⟩ := Outcome.bind_eq_ok.1 h
        cases h
        exact hq₁
    · exact fun b hb => absurd hb List.not_mem_nil
  exact hread b hb

/-- A projected measure has the unique name of a measure of the cube. -/
private theorem exists_named_of_projected (hb : c.Built d) (hplan : plan.Projects c)
    (hq : PlanParameters.ofPlan plan = .ok q) {b : Member} (hmem : b ∈ q.measures) :
    ∃ a ∈ c.measures, b.label.uniqueName = a.label.uniqueName := by
  obtain ⟨m, ordinal, ⟨a, ha, hname, -⟩, hread⟩ := exists_projected hplan hq hmem
  have hne : m.label.uniqueName ≠ "" := hname ▸ (hb.measures a ha).uniqueName_ne_empty
  exact ⟨a, ha, ((sameMeasure_of_read hread).uniqueName hne).trans hname⟩

/-- A legible formula between measures of the cube is read back. -/
private theorem read_text_of_measures (hb : c.Built d) {f : Formula} (hlegible : f.IsLegible)
    (hlhs : ∃ a ∈ c.measures, a.label.uniqueName = f.lhs)
    (hrhs : ∃ a ∈ c.measures, a.label.uniqueName = f.rhs) : Formula.read f.text = .ok f := by
  have hbracketed : ∀ name, (∃ a ∈ c.measures, a.label.uniqueName = name) → IsBracketed name := by
    rintro _ ⟨a, ha, rfl⟩
    have hjoin : a.label.uniqueName = joinSegments ["Measures", a.label.name] :=
      congrArg Label.uniqueName (hb.measures a ha).label
    rw [hjoin]
    exact isBracketed_joinSegments (List.cons_ne_nil _ _)
  exact (Formula.read_text_eq_ok_iff (hbracketed _ hlhs) (hbracketed _ hrhs)).2 hlegible

section

variable (hb : c.Built d) (hlhs : DefinedBefore Formula.lhs c.measures.reverse)
  (hrhs : DefinedBefore Formula.rhs c.measures.reverse)
  (hlegible : ∀ a ∈ c.measures, ∀ f ∈ a.formula?, f.IsLegible) (hplan : plan.Projects c)
  (hq : PlanParameters.ofPlan plan = .ok q)

include hb hlhs hrhs hlegible hplan hq

/-- A projected measure has the unique name and the formula of a measure of the cube. -/
private theorem has_of_projected {b : Member} (hmem : b ∈ q.measures) : c.Has b := by
  obtain ⟨m, ordinal, ⟨a, ha, hname, hformula⟩, hread⟩ := exists_projected hplan hq hmem
  have hne : m.label.uniqueName ≠ "" := hname ▸ (hb.measures a ha).uniqueName_ne_empty
  refine ⟨a, ha, ((sameMeasure_of_read hread).uniqueName hne).trans hname, ?_⟩
  have hbformula := formula_of_readMeasure hread
  rw [hformula] at hbformula
  cases hf : a.formula? with
  | none =>
    rw [hf] at hbformula
    exact (Except.ok.inj hbformula).symm
  | some f =>
    have hdefined : ∀ {operand : Formula → String}, DefinedBefore operand c.measures.reverse →
        ∃ o ∈ c.measures, o.label.uniqueName = operand f := by
      intro operand h
      obtain ⟨o, ho, honame⟩ := h.exists_measure (List.mem_reverse.2 ha) hf
      exact ⟨o, List.mem_reverse.1 ho, honame⟩
    rw [hf] at hbformula
    obtain ⟨g, hg, hbg⟩ : ∃ g, Formula.read f.text = .ok g ∧ some g = b.formula? :=
      Outcome.map_eq_ok.1 hbformula
    rw [read_text_of_measures hb (hlegible a ha f hf) (hdefined hlhs) (hdefined hrhs)] at hg
    rw [← hbg, Except.ok.inj hg]

variable (hnames : (c.measures.map fun a => a.label.name).Nodup)

include hnames

/-- The name of a measure of the cube stands for its formula. -/
private theorem exists_operand_of_measure {a : Member} (ha : a ∈ c.measures) :
    ∃ m, (MeasureScope.mk q.measures c.measures).operand a.label.uniqueName = .ok m
      ∧ m.formula? = a.formula? := by
  obtain ⟨m, hm⟩ := MeasureScope.exists_operand ⟨q.measures, c.measures⟩ (.inr ha)
  refine ⟨m, hm, ?_⟩
  obtain ⟨hname, hmem | hmem⟩ := MeasureScope.operand_eq_ok hm
  · obtain ⟨a', ha', hname', hformula⟩ := has_of_projected hb hlhs hrhs hlegible hplan hq hmem
    rw [hformula, hb.measure_eq hnames ha' ha (hname'.symm.trans hname)]
  · rw [hb.measure_eq hnames hmem ha hname]

/-- A projected measure can be evaluated if and only if it is not nested too deeply. -/
private theorem valued_of_projected_iff {b : Member} (hmem : b ∈ q.measures) {depth : Nat} :
    (MeasureScope.mk q.measures c.measures).Valued depth b
      ↔ nesting c.measures.reverse b.label.uniqueName ≤ depth := by
  obtain ⟨a, ha, hname, hformula⟩ := has_of_projected hb hlhs hrhs hlegible hplan hq hmem
  obtain ⟨m, hm, hmformula⟩ :=
    exists_operand_of_measure hb hlhs hrhs hlegible hplan hq hnames ha
  have hscope : ∀ a ∈ c.measures.reverse, ∃ m,
      (MeasureScope.mk q.measures c.measures).operand a.label.uniqueName = .ok m
        ∧ m.formula? = a.formula? := fun a ha =>
    exists_operand_of_measure hb hlhs hrhs hlegible hplan hq hnames (List.mem_reverse.1 ha)
  have hiff := @MeasureScope.operand_valued_iff _ _ hscope hlhs hrhs _
    ⟨a, List.mem_reverse.2 ha, rfl⟩ depth
  rw [hname, ← hiff, MeasureScope.valued_congr (hformula.trans hmformula.symm)]
  constructor
  · exact fun h => ⟨m, hm, h⟩
  · rintro ⟨m', hm', h⟩
    obtain rfl := Except.ok.inj (hm.symm.trans hm')
    exact h

end

/-- **Formulas of a cube that is built.**  Their left operands are defined before them.  If the
measures of the cube have different names and their formulas are legible, then the following holds
for every plan that projects measures of the cube, whose parameters can be read and whose members
are known.  If the right operands are defined before the formulas as well, the plan has a result if
and only if there are no observations in any group or no projected formula is nested too deeply.  If
it has a result at all, there are no observations in any group or the right operands of the
projected formulas are measures of the cube. -/
theorem formulas_executed (hbuild : d.build = .ok c) :
    DefinedBefore Formula.lhs c.measures.reverse
    ∧ ((c.measures.map fun a => a.label.name).Nodup →
      (∀ a ∈ c.measures, ∀ f ∈ a.formula?, f.IsLegible) →
      ∀ plan q dice, plan.Projects c → PlanParameters.ofPlan plan = .ok q →
        (q.dice.mapM fun tuple => tuple.mapM c.resolveMember) = .ok dice →
        (DefinedBefore Formula.rhs c.measures.reverse →
          ((∃ result, c.execute plan = .ok result) ↔ (∀ key, c.cellFacts dice q.levels key = [])
            ∨ ∀ b ∈ q.measures,
              nesting c.measures.reverse b.label.uniqueName ≤ maxFormulaDepth))
        ∧ ((∃ result, c.execute plan = .ok result) → (∀ key, c.cellFacts dice q.levels key = [])
          ∨ ∀ b ∈ q.measures, ∀ f ∈ b.formula?,
            ∃ a ∈ c.measures, a.label.uniqueName = f.rhs)) := by
  have hb := CubeDescription.built hbuild
  have hlhs := definedBefore_lhs hbuild
  refine ⟨hlhs, fun hnames hlegible plan q dice hplan hq hdice => ⟨fun hrhs => ?_, ?_⟩⟩
  · rw [exists_execute_iff_valued hq hdice]
    refine or_congr_right (forall₂_congr fun b hmem => ?_)
    exact valued_of_projected_iff hb hlhs hrhs hlegible hplan hq hnames hmem
  · rw [exists_execute_iff_valued hq hdice]
    refine Or.imp_right fun hvalued b hmem f hf => ?_
    have hformula := hvalued b hmem
    rw [maxFormulaDepth, MeasureScope.valued_succ_iff hf] at hformula
    obtain ⟨-, r, hr, -⟩ := hformula
    -- whatever is found, projected or not, has the name of a measure of the cube
    obtain ⟨hname, hr | hr⟩ := MeasureScope.operand_eq_ok hr
    · obtain ⟨a, ha, haname⟩ := exists_named_of_projected hb hplan hq hr
      exact ⟨a, ha, haname.symm.trans hname⟩
    · exact ⟨r, hr, hname⟩

/-! ### Margins -/

/-- A cube of amounts with calculated measures. -/
def margins (calculated : List MeasureDescription) : CubeDescription where
  name := "Sales"
  dimensions := []
  members := []
  measures := .stored "Amount" .sum :: calculated
  facts := [⟨[], [("Amount", 2)]⟩]

/-- The plan that projects all measures of a cube. -/
def projecting (c : MemoryCube) : Plan := ⟨rowSetOf [c.cube], [.project (measureRowSet c.measures)]⟩

theorem projects_projecting (c : MemoryCube) : (projecting c).Projects c := by
  intro rows hrows
  obtain rfl : rows = measureRowSet c.measures :=
    Operator.project.inj (List.mem_singleton.1 hrows)
  exact ⟨c.measures, rfl, fun a ha => ⟨a, ha, rfl, rfl⟩⟩

/-- Twice the amount, and the amount over that. -/
def halves : CubeDescription :=
  margins [.calculated "Double" ⟨.add, "[Measures].[Amount]", "[Measures].[Amount]"⟩,
    .calculated "Share" ⟨.divide, "[Measures].[Amount]", "[Measures].[Double]"⟩]

theorem isOk_halves : halves.build.isOk = true := by decide +kernel

/-- The cube of these measures. -/
def halvesCube : MemoryCube := halves.build.get isOk_halves

theorem isOk_parameters_halves : (PlanParameters.ofPlan (projecting halvesCube)).isOk = true := by
  decide +kernel

/-- What the plan asks for that projects all of these measures. -/
def halvesParameters : PlanParameters := Outcome.get _ isOk_parameters_halves

/-- The plan that projects all of these measures has a result. -/
theorem formulas_executed_halves :
    DefinedBefore Formula.rhs halvesCube.measures.reverse
      ∧ ∃ result, halvesCube.execute (projecting halvesCube) = .ok result := by
  obtain ⟨-, hexecuted⟩ := formulas_executed (Outcome.eq_ok_get isOk_halves)
  obtain ⟨hnames, hlegible, hrhs⟩ : (halvesCube.measures.map fun a => a.label.name).Nodup
      ∧ (∀ a ∈ halvesCube.measures, ∀ f ∈ a.formula?, f.IsLegible)
      ∧ DefinedBefore Formula.rhs halvesCube.measures.reverse := by
    decide +kernel
  obtain ⟨hdice, hshallow⟩ : halvesParameters.dice = [] ∧ ∀ b ∈ halvesParameters.measures,
      nesting halvesCube.measures.reverse b.label.uniqueName ≤ maxFormulaDepth := by
    decide +kernel
  have hresolved : (halvesParameters.dice.mapM fun tuple =>
      tuple.mapM halvesCube.resolveMember) = .ok [] := by
    rw [hdice]
    rfl
  obtain ⟨hiff, -⟩ := hexecuted hnames hlegible _ halvesParameters _ (projects_projecting _)
    (Outcome.eq_ok_get isOk_parameters_halves) hresolved
  exact ⟨hrhs, (hiff hrhs).2 (.inr hshallow)⟩

/-- A profit over costs that no measure has. -/
def profits : CubeDescription :=
  margins [.calculated "Profit" ⟨.subtract, "[Measures].[Amount]", "[Measures].[Cost]"⟩]

/-- **A formula may be accepted that cannot be evaluated.**  The right operand is no measure, though
the cube is built and formulas are not nested deeply, and the plan that projects the measures of the
cube fails. -/
theorem not_executed : ∃ c, profits.build = .ok c
    ∧ (∀ a ∈ c.measures, nesting c.measures.reverse a.label.uniqueName ≤ maxFormulaDepth)
    ∧ ¬ DefinedBefore Formula.rhs c.measures.reverse
    ∧ (projecting c).Projects c
    ∧ c.execute (projecting c) = .error (.unresolvedIdentifier "[Measures].[Cost]") := by
  obtain ⟨c, hbuild, hdepth, hbefore, hfails⟩ := Outcome.exists_of_map_decide (x := profits.build)
    (P := fun c => (∀ a ∈ c.measures,
        nesting c.measures.reverse a.label.uniqueName ≤ maxFormulaDepth)
      ∧ ¬ DefinedBefore Formula.rhs c.measures.reverse
      ∧ c.execute (projecting c) = .error (.unresolvedIdentifier "[Measures].[Cost]"))
    (by decide +kernel)
  exact ⟨c, hbuild, hdepth, hbefore, projects_projecting c, hfails⟩

end MemoryCube

end Datacube
