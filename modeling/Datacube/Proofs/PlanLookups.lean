import Datacube.Proofs.Plans

/-!
# How the parts of a plan are found

The roll-up and the dice of a plan are looked up for the members on the first positions of the axes
and of the slicer: from a member to its hierarchy, and from there to its level.  The dimensions to
slice are those that no hierarchy of the roll-up leads to.  What a plan consists of is therefore
known as soon as it is known what single lookups find.

## Main definitions

* `Assurance.stateful` — the assurance of computations with a state, whatever the state is.
* `leadingMembers` — the members on the first of some positions.
* `Findings`, `Provider.Finds` — what the lookups of a provider find in a cube.
* `Axis.RollsUp`, `PlanParts.Found` — how the parts of a plan belong to axes and a slicer.

## Main results

* `Provider.Finds.planOfAxes` — **plans are made of what lookups find**.
-/

namespace Datacube

/-- The assurance of computations with a state: a condition on the result, if there is one,
whatever the state is before and after. -/
def Assurance.stateful (σ : Type) : Assurance (ExceptT Fault (StateM σ)) where
  Ensures x Q := ∀ before after a, x.run before = (.ok a, after) → Q a
  pure h _ _ a e := by
    obtain rfl := Except.ok.inj (congrArg Prod.fst e)
    exact h
  bind {_ _ x f _ _} hx hf before after b e := by
    have hrun : (x >>= f).run before
        = (match x.run before with | (r, s) => ExceptT.bindCont f r s) := rfl
    rw [hrun] at e
    rcases hcase : x.run before with ⟨_ | a, between⟩
    · rw [hcase] at e
      cases e
    · rw [hcase] at e
      exact hf a (hx before between a hcase) between after b e
  throw _ _ _ e := nomatch congrArg Prod.fst e

/-- Any computation with a state may be assumed to have some result. -/
theorem Assurance.stateful_trivial {σ α : Type} (x : ExceptT Fault (StateM σ) α) :
    (stateful σ).Ensures x fun _ => True := fun _ _ _ _ => trivial

/-! ### Leading positions -/

/-- The members, measures left out, on the first of some positions. -/
def leadingMembers : List Position → List Member
  | [] => []
  | first :: _ => first.dimensionMembers

theorem mem_of_mem_leadingMembers {positions : List Position} {a : Member}
    (h : a ∈ leadingMembers positions) : ∃ position ∈ positions, a ∈ position.dimensionMembers := by
  cases positions with
  | nil => cases h
  | cons first rest => exact ⟨first, List.mem_cons_self, h⟩

/-! ### Lookups -/

/-- What may be found in a cube. -/
structure Findings where
  /-- Whether these are the dimensions of the cube. -/
  dimensions : List Dimension → Prop
  /-- Whether a unique name is that of a hierarchy. -/
  hierarchy : String → Hierarchy → Prop
  /-- Whether a member belongs to a level. -/
  level : Member → Level → Prop

/-- What the lookups of a provider find in a cube. -/
structure Provider.Finds {m : Type → Type} [Monad m] [MonadExcept Fault m] (A : Assurance m)
    (p : Provider m) (cube : Cube) (found : Findings) : Prop where
  dimensions : A.Ensures (p.dimensions cube) found.dimensions
  hierarchy : ∀ name, A.Ensures (p.hierarchy cube name) (found.hierarchy name)
  levelOf : ∀ member, A.Ensures (p.levelOf cube member) (found.level member)
  measures : A.Ensures (p.measures cube) fun _ => True

/-- How an axis rolls up: all its positions have their members in the levels of those on the first
one, and the hierarchies and levels are found for these. -/
structure Axis.RollsUp (found : Findings) (axis : Axis) (signature : List (Hierarchy × Level)) :
    Prop where
  levels : ∀ position ∈ axis.positions,
    position.levels = (leadingMembers axis.positions).map Member.level
  parts : List.Forall₂ (fun member part => found.hierarchy member.hierarchy part.1
    ∧ found.level member part.2) (leadingMembers axis.positions) signature

/-- Every position of an axis has its members in the levels of the roll-up, if levels are found by
their unique names. -/
theorem Axis.RollsUp.levels_eq {found : Findings} {axis : Axis}
    {signature : List (Hierarchy × Level)} (h : axis.RollsUp found signature)
    (hlevel : ∀ a l, found.level a l → l.label.uniqueName = a.level) {position : Position}
    (hposition : position ∈ axis.positions) :
    position.levels = signature.map fun part => part.2.label.uniqueName := by
  rw [h.levels position hposition, ← List.forall₂_eq_eq_eq, List.forall₂_map_left_iff,
    List.forall₂_map_right_iff]
  exact h.parts.imp fun a part hpart => (hlevel a part.2 hpart.2).symm

/-- How the parts of a plan are found for axes and a slicer. -/
structure PlanParts.Found (found : Findings) (axes : List Axis) (slicer : Option Axis)
    (parts : PlanParts) : Prop where
  diced : List.Forall₂ (fun member hierarchy => found.hierarchy member.hierarchy hierarchy)
    (leadingMembers (dicePositions slicer)) parts.diced
  rollup : List.Forall₂ (Axis.RollsUp found) axes parts.rollup
  /-- Dimensions are sliced unless they hold the measures or are rolled up. -/
  sliced : ∃ ds, found.dimensions ds ∧ ∀ d, d ∈ parts.sliced ↔ d ∈ ds ∧ d.isMeasures = false
    ∧ d.label.uniqueName ≠ measuresDimension
    ∧ ∀ part ∈ parts.rollup.flatten, part.1.dimension ≠ d.label.uniqueName

namespace PlanParts.Found

variable {found : Findings} {axes : List Axis} {slicer : Option Axis} {parts : PlanParts}

/-- Everything in the roll-up is found for a member on an axis. -/
theorem exists_of_mem_rollup (h : parts.Found found axes slicer) {part : Hierarchy × Level}
    (hpart : part ∈ parts.rollup.flatten) : ∃ axis ∈ axes, ∃ member ∈ leadingMembers axis.positions,
      found.hierarchy member.hierarchy part.1 ∧ found.level member part.2 := by
  obtain ⟨signature, hsignature, hpart⟩ := List.mem_flatten.1 hpart
  obtain ⟨axis, haxis, hrolls⟩ := exists_left_of_forall₂ h.rollup hsignature
  obtain ⟨member, hmember, hfound⟩ := exists_left_of_forall₂ hrolls.parts hpart
  exact ⟨axis, haxis, member, hmember, hfound⟩

/-- **Every member on an axis is rolled up** to a level that is found for a member in the same
level. -/
theorem exists_part (h : parts.Found found axes slicer) {axis : Axis} (haxis : axis ∈ axes)
    {position : Position} (hposition : position ∈ axis.positions) {a : Member}
    (ha : a ∈ position.dimensionMembers) : ∃ part ∈ parts.rollup.flatten,
      ∃ member ∈ leadingMembers axis.positions, member.level = a.level
        ∧ found.hierarchy member.hierarchy part.1 ∧ found.level member part.2 := by
  obtain ⟨signature, hsignature, hrolls⟩ := exists_right_of_forall₂ h.rollup haxis
  -- positions are compared by their levels, so the member has a counterpart on the first one
  have hlevel : a.level ∈ (leadingMembers axis.positions).map Member.level := by
    rw [← hrolls.levels position hposition]
    exact List.mem_map_of_mem ha
  obtain ⟨member, hmember, hlevel⟩ := List.mem_map.1 hlevel
  obtain ⟨part, hpart, hfound⟩ := exists_right_of_forall₂ hrolls.parts hmember
  exact ⟨part, List.mem_flatten.2 ⟨signature, hsignature, hpart⟩, member, hmember, hlevel, hfound⟩

end PlanParts.Found

/-! ### Plans -/

namespace Provider.Finds

variable {m : Type → Type} [Monad m] [LawfulMonad m] [MonadExcept Fault m] {A : Assurance m}
  {p : Provider m} {cube : Cube} {found : Findings} (h : Finds A p cube found)

include h

omit [LawfulMonad m] in
theorem projection (axes : List Axis) (slicer : Option Axis) :
    A.Ensures (p.projection cube axes slicer) fun _ => True := by
  unfold Provider.projection
  split
  · refine A.bind h.measures fun ms _ => ?_
    cases ms with
    | nil => exact A.throw
    | cons first rest => exact A.pure trivial
  · exact A.pure trivial

/-- The hierarchies of the dice are found for the members on the first of its positions. -/
theorem diceSignature (slicer : Option Axis) : A.Ensures (p.diceSignature cube slicer)
    (List.Forall₂ (fun member hierarchy => found.hierarchy member.hierarchy hierarchy)
      (leadingMembers (dicePositions slicer))) := by
  unfold Provider.diceSignature
  cases dicePositions slicer with
  | nil => exact A.pure .nil
  | cons first rest => exact A.mapM fun member _ => h.hierarchy member.hierarchy

/-- **The signature of an axis** is found for the members on its first position. -/
theorem axisSignature (axis : Axis) :
    A.Ensures (p.axisSignature cube axis) (Axis.RollsUp found axis) := by
  unfold Provider.axisSignature
  cases hpositions : axis.positions with
  | nil =>
    refine A.pure ⟨?_, ?_⟩
    · rw [hpositions]
      exact fun _ hposition => absurd hposition List.not_mem_nil
    · rw [hpositions]
      exact .nil
  | cons first rest =>
    have hcheck : A.Ensures (checkUniform axis first.levels) fun _ =>
        ∀ position ∈ axis.positions, position.levels = first.levels :=
      Simulation.checkUniform (S := A.simulation) axis first.levels
    refine A.bind hcheck fun _ hlevels => ?_
    have hparts : A.Ensures (first.dimensionMembers.mapM (p.rollupOf cube))
        (List.Forall₂ (fun member part => found.hierarchy member.hierarchy part.1
          ∧ found.level member part.2) first.dimensionMembers) :=
      A.mapM fun member _ => A.bind (h.hierarchy member.hierarchy) fun hierarchy hhierarchy =>
        A.bind (h.levelOf member) fun level hlevel => A.pure ⟨hhierarchy, hlevel⟩
    refine A.mono hparts fun signature hsignature => ⟨?_, ?_⟩
    · rw [hpositions] at hlevels ⊢
      exact hlevels
    · rw [hpositions]
      exact hsignature

/-- **Plans are made of what lookups find** for the members on the first positions. -/
theorem planOfAxes (axes : List Axis) (slicer : Option Axis) :
    A.Ensures (p.planOfAxes cube axes slicer) fun plan => ∃ parts : PlanParts,
      parts.Found found axes slicer ∧ plan = parts.plan cube slicer := by
  unfold Provider.planOfAxes
  refine A.bind (h.projection axes slicer) fun measures _ => ?_
  refine A.bind (h.diceSignature slicer) fun diced hdiced => ?_
  have hrollup : A.Ensures (p.rollupSignature cube axes) fun signature =>
      ∃ rollup, signature = rollup.flatten ∧ List.Forall₂ (Axis.RollsUp found) axes rollup := by
    refine A.bind (A.mapM fun axis _ => h.axisSignature axis) fun rollup hrolls => ?_
    exact A.pure ⟨rollup, rfl, hrolls⟩
  refine A.bind hrollup fun signature hsignature => ?_
  obtain ⟨rollup, rfl, hrolls⟩ := hsignature
  have hslice : A.Ensures (p.slicedDimensions cube rollup.flatten) fun sliced =>
      ∃ ds, found.dimensions ds ∧ ∀ d, d ∈ sliced ↔ d ∈ ds ∧ d.isMeasures = false
        ∧ d.label.uniqueName ≠ measuresDimension
        ∧ ∀ part ∈ rollup.flatten, part.1.dimension ≠ d.label.uniqueName := by
    refine A.bind h.dimensions fun ds hds => A.pure ⟨ds, hds, fun d => ?_⟩
    rw [List.mem_filter]
    simp only [Bool.and_eq_true, Bool.not_eq_true', bne_iff_ne, List.any_eq_false, beq_iff_eq,
      and_assoc]
  refine A.bind hslice fun sliced hsliced => A.pure ⟨⟨measures, diced, sliced, rollup⟩, ?_, rfl⟩
  exact ⟨hdiced, hrolls, hsliced⟩

end Provider.Finds

end Datacube
