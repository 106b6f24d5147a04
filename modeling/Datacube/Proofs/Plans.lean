import Datacube.Plan.OfAxes
import Datacube.Proofs.Lookups

/-!
# What plans ask for

A plan has one roll-up level for every member other than a measure on the positions of the axes,
whichever positions are taken.  This is what the uniformity of the axes is for: levels are taken
from the first positions, and the other positions have their members in the same levels.

## Main definitions

* `PlanParts` — the schema objects from which a plan is made; `PlanParts.plan` — the plan.
* `PlanParts.Fit` — how the parts of a plan belong to the axes and the slicer.

## Main results

* `Provider.Matches.planOfAxes` — **plans are made of parts that fit**.
* `PlanParts.Fit.mem_measures` — every measure of the axes and of the slicer is projected.
-/

namespace Datacube

/-! ### First occurrences -/

section

variable {α β : Type} [BEq β] [LawfulBEq β] (key : α → β) {as : List α} {a : α}

omit [LawfulBEq β] in
theorem mem_of_mem_firstsBy {key : α → β} (h : a ∈ firstsBy key as) : a ∈ as := by
  induction as with
  | nil => cases h
  | cons b bs ih =>
    rw [firstsBy, List.mem_cons] at h
    rcases h with rfl | h
    · exact List.mem_cons_self
    · exact List.mem_cons_of_mem _ (ih (List.mem_filter.1 h).1)

/-- Every element has its key among the elements that are kept. -/
theorem exists_mem_firstsBy (h : a ∈ as) : ∃ b ∈ firstsBy key as, key b = key a := by
  induction as with
  | nil => cases h
  | cons b bs ih =>
    rw [firstsBy]
    by_cases hb : key a = key b
    · exact ⟨b, List.mem_cons_self, hb.symm⟩
    · rcases List.mem_cons.1 h with rfl | h
      · exact absurd rfl hb
      · obtain ⟨c, hc, hca⟩ := ih h
        refine ⟨c, List.mem_cons_of_mem _ (List.mem_filter.2 ⟨hc, ?_⟩), hca⟩
        rw [bne_iff_ne, hca]
        exact hb

end

/-! ### Parts -/

theorem dicePositions_eq_filter (slicer : Option Axis) :
    dicePositions slicer = (slicer.getD (Axis.empty .slicer)).positions.filter
      fun position => !position.dimensionMembers.isEmpty := by
  cases slicer <;> rfl

/-- The schema objects from which a plan is made. -/
structure PlanParts where
  /-- The projected measures. -/
  measures : List Member
  /-- The hierarchies of the dice. -/
  diced : List Hierarchy
  /-- The dimensions over which is aggregated. -/
  sliced : List Dimension
  /-- The hierarchies and levels of the roll-up, those of an axis together. -/
  rollup : List (List (Hierarchy × Level))

namespace PlanParts

/-- The levels of the roll-up. -/
def levels (parts : PlanParts) : List Level := parts.rollup.flatten.map Prod.snd

/-- The plan with given parts. -/
def plan (parts : PlanParts) (cube : Cube) (slicer : Option Axis) : Plan where
  cube := rowSetOf [cube]
  operators := [
    .rollup (rowSetOf (parts.rollup.flatten.map Prod.fst)) (rowSetOf parts.levels),
    .slice (rowSetOf parts.sliced),
    .dice (rowSetOf parts.diced)
      ((dicePositions slicer).map fun position => rowSetOf position.dimensionMembers),
    .project (measureRowSet parts.measures)]

variable (parts : PlanParts) (cube : Cube) (slicer : Option Axis)

@[simp] theorem rollupLevels?_plan :
    (parts.plan cube slicer).rollupLevels? = some (rowSetOf parts.levels) := rfl

@[simp] theorem projectedMeasures?_plan :
    (parts.plan cube slicer).projectedMeasures? = some (measureRowSet parts.measures) := rfl

/-- How the parts of a plan belong to axes and a slicer, where the objects that are listed satisfy
a condition. -/
structure Fit (ok : Cube → SchemaObject → Prop) (cube : Cube) (axes : List Axis)
    (slicer : Option Axis) (parts : PlanParts) : Prop where
  /-- The measures are those of the axes and the slicer, or else one that the cube lists. -/
  measures : parts.measures ≠ []
    ∧ (parts.measures = firstsBy id ((axes ++ slicer.toList).flatMap Axis.measures)
      ∨ (axes ++ slicer.toList).flatMap Axis.measures = []
        ∧ ∀ a ∈ parts.measures, ok cube (.member a) ∧ a.isMeasure)
  /-- Every position of an axis has its members in the levels of the axis. -/
  rollup : List.Forall₂ (fun axis signature => axis.dimensionality = signature.length
    ∧ ∀ position ∈ axis.positions,
      position.levels = signature.map fun part => part.2.label.uniqueName) axes parts.rollup
  /-- The levels are listed. -/
  listed : ∀ l ∈ parts.levels, ok cube (.level l)

end PlanParts

/-! ### Measures -/

/-- Every measure on an axis is one of its measures, up to its unique name. -/
theorem exists_mem_measures {axis : Axis} {a : Member}
    (haxis : axis = Axis.ofPositions axis.ordinal axis.positions)
    (ha : a ∈ Axis.membersOf axis.positions) (hm : a.isMeasure) :
    ∃ b ∈ axis.measures, b.label.uniqueName = a.label.uniqueName := by
  rw [haxis]
  exact exists_mem_firstsBy (fun m : Member => m.label.uniqueName) (List.mem_filter.2 ⟨ha, hm⟩)

/-- The measures of an axis are among its members. -/
theorem mem_membersOf_of_mem_measures {axis : Axis} {a : Member}
    (haxis : axis = Axis.ofPositions axis.ordinal axis.positions) (ha : a ∈ axis.measures) :
    a ∈ Axis.membersOf axis.positions ∧ a.isMeasure := by
  rw [haxis] at ha
  exact List.mem_filter.1 (mem_of_mem_firstsBy ha)

namespace PlanParts.Fit

variable {ok : Cube → SchemaObject → Prop} {cube : Cube} {axes : List Axis} {slicer : Option Axis}
  {parts : PlanParts} (h : Fit ok cube axes slicer parts)

include h

/-- Every projected measure is one of the axes, one of the slicer, or listed. -/
theorem measure_cases {a : Member} (ha : a ∈ parts.measures) :
    (∃ axis ∈ axes ++ slicer.toList, a ∈ axis.measures) ∨ ok cube (.member a) ∧ a.isMeasure := by
  rcases h.measures.2 with hm | ⟨-, hm⟩
  · rw [hm] at ha
    exact .inl (List.mem_flatMap.1 (mem_of_mem_firstsBy ha))
  · exact .inr (hm a ha)

/-- **Every measure of the axes and of the slicer is projected.** -/
theorem mem_measures {axis : Axis} (haxis : axis ∈ axes ++ slicer.toList) {a : Member}
    (ha : a ∈ axis.measures) : a ∈ parts.measures := by
  have hmem : a ∈ (axes ++ slicer.toList).flatMap Axis.measures :=
    List.mem_flatMap.2 ⟨axis, haxis, ha⟩
  rcases h.measures.2 with hm | ⟨hm, -⟩
  · rw [hm]
    obtain ⟨b, hb, rfl⟩ := exists_mem_firstsBy id hmem
    exact hb
  · rw [hm] at hmem
    cases hmem

/-- The roll-up has a level for each key column. -/
theorem sum_dimensionality :
    axes.foldr (fun axis width => axis.dimensionality + width) 0 = parts.levels.length := by
  rw [PlanParts.levels, List.length_map]
  have hrollup := h.rollup
  generalize parts.rollup = rollup at hrollup
  clear h
  induction hrollup with
  | nil => rfl
  | cons hrolls _ ih => rw [List.foldr_cons, ih, hrolls.1, List.flatten_cons, List.length_append]

end PlanParts.Fit

/-! ### Plans -/

section

variable {m n : Type → Type} [Monad m] [MonadExcept Fault m] [Monad n] [MonadExcept Fault n]

theorem Simulation.checkUniform {S : Simulation m n} (axis : Axis) (expected : List String) :
    S.Relates (Datacube.checkUniform axis expected) (Datacube.checkUniform axis expected) fun _ =>
      ∀ position ∈ axis.positions, position.levels = expected := by
  unfold Datacube.checkUniform
  cases h : axis.positions.find? fun position => position.levels != expected with
  | none =>
    refine S.pure fun position hposition => ?_
    simpa using List.find?_eq_none.1 h position hposition
  | some position => exact S.throw

namespace Provider.Matches

variable {S : Simulation m n} {p : Provider m} {q : Provider n} {cube : Cube}
  {ok : Cube → SchemaObject → Prop} (h : Matches S p q cube (ok cube)) (axes : List Axis)
  (slicer : Option Axis)

include h

theorem projection : S.Relates (p.projection cube axes slicer) (q.projection cube axes slicer)
    fun measures => measures ≠ []
      ∧ (measures = firstsBy id ((axes ++ slicer.toList).flatMap Axis.measures)
        ∨ (axes ++ slicer.toList).flatMap Axis.measures = []
          ∧ ∀ a ∈ measures, ok cube (.member a) ∧ a.isMeasure) := by
  unfold Provider.projection
  cases hmeasures : firstsBy id ((axes ++ slicer.toList).flatMap Axis.measures) with
  | nil =>
    -- there is no measure on the axes or the slicer, so the first one of the cube is projected
    refine S.bind h.measures fun ms hms => ?_
    cases ms with
    | nil => exact S.throw
    | cons first rest =>
      refine S.pure ⟨List.cons_ne_nil _ _, .inr ⟨?_, ?_⟩⟩
      · refine List.eq_nil_iff_forall_not_mem.2 fun a ha => ?_
        obtain ⟨b, hb, -⟩ := exists_mem_firstsBy id ha
        rw [hmeasures] at hb
        cases hb
      · exact List.forall_mem_singleton.2 (hms first List.mem_cons_self)
  | cons first rest => exact S.pure ⟨List.cons_ne_nil _ _, .inl rfl⟩

variable [LawfulMonad m] [LawfulMonad n]

theorem rollupOf (member : Member) : S.Relates (p.rollupOf cube member) (q.rollupOf cube member)
    fun part => ok cube (.level part.2) ∧ part.2.label.uniqueName = member.level :=
  S.bind (h.hierarchy member.hierarchy) fun _ _ =>
    S.bind (h.levelOf member) fun _ hl => S.pure hl

/-- **The signature of an axis** gives the levels of all its positions. -/
theorem axisSignature (axis : Axis) :
    S.Relates (p.axisSignature cube axis) (q.axisSignature cube axis) fun signature =>
      (axis.dimensionality = signature.length ∧ ∀ position ∈ axis.positions,
        position.levels = signature.map fun part => part.2.label.uniqueName)
        ∧ ∀ part ∈ signature, ok cube (.level part.2) := by
  unfold Provider.axisSignature
  rw [Axis.dimensionality]
  cases hpositions : axis.positions with
  | nil =>
    exact S.pure ⟨⟨rfl, fun _ hx => absurd hx List.not_mem_nil⟩,
      fun _ hx => absurd hx List.not_mem_nil⟩
  | cons first rest =>
    -- the signature is made for the first position, and all others have the same levels
    refine S.bind (S.checkUniform axis first.levels) fun _ hlevels => ?_
    refine S.mono (S.mapM fun member _ => h.rollupOf member) fun signature hsignature => ?_
    have hmap : first.levels = signature.map fun part => part.2.label.uniqueName := by
      rw [Position.levels]
      generalize first.dimensionMembers = members at hsignature
      induction hsignature with
      | nil => rfl
      | cons hpart _ ih => rw [List.map_cons, List.map_cons, hpart.2, ih]
    rw [hpositions] at hlevels
    refine ⟨⟨hsignature.length_eq, fun position hp => (hlevels position hp).trans hmap⟩, ?_⟩
    intro part hpart
    obtain ⟨member, -, hok, -⟩ := exists_left_of_forall₂ hsignature hpart
    exact hok

/-- The signature of the roll-up is made of the signatures of the axes. -/
theorem rollupSignature :
    S.Relates (p.rollupSignature cube axes) (q.rollupSignature cube axes) fun signature =>
      ∃ rollup, signature = rollup.flatten ∧ List.Forall₂ (fun axis signature =>
        (axis.dimensionality = signature.length ∧ ∀ position ∈ axis.positions,
          position.levels = signature.map fun part => part.2.label.uniqueName)
          ∧ ∀ part ∈ signature, ok cube (.level part.2)) axes rollup := by
  unfold Provider.rollupSignature
  refine S.bind (S.mapM fun axis _ => h.axisSignature axis) fun rollup hrollup => ?_
  exact S.pure ⟨rollup, rfl, hrollup⟩

/-- **Plans are made of parts that fit** the axes and the slicer. -/
theorem planOfAxes :
    S.Relates (p.planOfAxes cube axes slicer) (q.planOfAxes cube axes slicer) fun plan =>
      ∃ parts : PlanParts, parts.Fit ok cube axes slicer ∧ plan = parts.plan cube slicer := by
  unfold Provider.planOfAxes
  refine S.bind (h.projection axes slicer) fun measures hmeasures => ?_
  have hdice : S.Relates (p.diceSignature cube slicer) (q.diceSignature cube slicer)
      fun _ => True := by
    unfold Provider.diceSignature
    cases dicePositions slicer with
    | nil => exact S.pure trivial
    | cons first rest =>
      exact S.mono (S.mapM fun member _ => h.hierarchy member.hierarchy) fun _ _ => trivial
  refine S.bind hdice fun diced _ => ?_
  -- the roll-up keeps the signatures of the axes apart, of which the plan only has the parts
  refine S.bind (h.rollupSignature axes) fun signature hsignature => ?_
  obtain ⟨rollup, rfl, hrollup⟩ := hsignature
  have hslice : S.Relates (p.slicedDimensions cube rollup.flatten)
      (q.slicedDimensions cube rollup.flatten) fun _ => True :=
    S.bind h.dimensions fun _ _ => S.pure trivial
  refine S.bind hslice fun sliced _ => S.pure ⟨⟨measures, diced, sliced, rollup⟩, ?_, rfl⟩
  refine ⟨hmeasures, hrollup.imp fun _ _ hr => hr.1, ?_⟩
  intro l hl
  obtain ⟨part, hpart, rfl⟩ := List.mem_map.1 hl
  obtain ⟨signature, hmem, hpart⟩ := List.mem_flatten.1 hpart
  obtain ⟨axis, -, -, hlisted⟩ := exists_left_of_forall₂ hrollup hmem
  exact hlisted part hpart

end Provider.Matches

end

end Datacube
