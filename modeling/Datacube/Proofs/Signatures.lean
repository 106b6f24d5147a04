import Datacube.Proofs.CellAccess
import Datacube.Proofs.PlanLookups
import Datacube.Proofs.Transparency

/-!
# The signatures of plans

A plan has one list of hierarchies and levels for each axis, and one list of hierarchies for the
dice.  They are taken from the first positions, and other positions are meant to have the same.  For
axes this is checked, but by the unique names of levels alone, which two hierarchies may share.  For
the slicer it is not checked at all.

## Main definitions

* `Position.signature` — the hierarchies and levels of the members on a position.
* `Axis.TellsHierarchies` — whether the levels on an axis tell its hierarchies apart.
* `Axis.HasSignature` — how an axis has a signature.
* `Axis.firstOther?` — the position of an axis that is reported.
* `Years` — a cube with two hierarchies that share the unique name of a level.

## Main results

* `Provider.uniform_of_planOfAxes` — **what holds of the axes of a plan** for every provider, and
  when no plan is made of axes; `Years.not_uniform` — what does not hold.
* `Provider.dice_of_planOfAxes` — **what holds of the tuples of a dice** for every provider;
  `Provider.dice_not_uniform` — what does not hold.
-/

namespace Datacube

/-! ### Signatures -/

namespace Position

/-- The hierarchies of the members that are not measures. -/
def hierarchies (p : Position) : List String := p.dimensionMembers.map Member.hierarchy

/-- The hierarchies and the levels of the members that are not measures. -/
def signature (p : Position) : List (String × String) :=
  p.dimensionMembers.map fun a => (a.hierarchy, a.level)

@[simp] theorem map_fst_signature (p : Position) : p.signature.map Prod.fst = p.hierarchies := by
  rw [signature, List.map_map]
  rfl

@[simp] theorem map_snd_signature (p : Position) : p.signature.map Prod.snd = p.levels := by
  rw [signature, List.map_map]
  rfl

end Position

namespace Axis

/-- Whether members of an axis in levels of one unique name are in hierarchies of one. -/
def TellsHierarchies (axis : Axis) : Prop :=
  ∀ x ∈ axis.positions.flatMap Position.signature, ∀ y ∈ axis.positions.flatMap Position.signature,
    x.2 = y.2 → x.1 = y.1

/-- The levels of the members on the first position. -/
def leadingLevels (axis : Axis) : List String := (leadingMembers axis.positions).map Member.level

/-- The first position whose members are in other levels than those of the first position. -/
def firstOther? (axis : Axis) : Option Position :=
  axis.positions.find? fun position => position.levels != axis.leadingLevels

/-- How an axis has a signature of hierarchies and levels. -/
structure HasSignature (axis : Axis) (signature : List (String × String)) : Prop where
  empty : axis.positions = [] → signature = []
  first : ∀ first ∈ axis.positions.head?, first.signature = signature
  levels : ∀ position ∈ axis.positions, position.levels = signature.map Prod.snd
  /-- Hierarchies are the same where levels tell them apart. -/
  uniform : axis.TellsHierarchies → ∀ position ∈ axis.positions, position.signature = signature

/-- **Positions with the same levels have the same hierarchies** if levels tell these apart. -/
theorem TellsHierarchies.signature_eq {axis : Axis} (h : axis.TellsHierarchies)
    {p q : Position} (hp : p ∈ axis.positions) (hq : q ∈ axis.positions)
    (hl : p.levels = q.levels) : p.signature = q.signature := by
  have hmem : ∀ position ∈ axis.positions, ∀ x ∈ position.signature,
      x ∈ axis.positions.flatMap Position.signature := by
    intro position hposition x hx
    exact List.mem_flatMap.2 ⟨position, hposition, hx⟩
  refine eq_of_map_eq (f := Prod.snd) (fun x hx y hy hxy => ?_) ?_
  · exact Prod.ext (h x (hmem p hp x hx) y (hmem q hq y hy) hxy) hxy
  · rw [Position.map_snd_signature, Position.map_snd_signature, hl]

end Axis

/-! ### Rows -/

theorem texts_rowSetOf_hierarchies (hierarchies : List Hierarchy) :
    (rowSetOf hierarchies).texts Column.hierarchyUniqueName
      = hierarchies.map fun h => h.label.uniqueName :=
  texts_rowSetOf (fun _ => rfl) hierarchies

theorem texts_rowSetOf_members (members : List Member) :
    (rowSetOf members).texts Column.hierarchyUniqueName = members.map Member.hierarchy :=
  texts_rowSetOf (fun _ => rfl) members

/-! ### Providers with a state -/

namespace Provider

variable {σ : Type}

/-- What every provider finds: objects of the names that are looked up. -/
def named : Findings where
  dimensions _ := True
  hierarchy name h := h.label.uniqueName = name
  level member l := l.label.uniqueName = member.level

section

variable (p : Provider (ExceptT Fault (StateM σ))) (cube : Cube)

private theorem named_pick {α : Type} [Labelled α] (objects : List α) (name : String) :
    (Assurance.stateful σ).Ensures (pick objects name) fun a => uniqueName a = name := by
  rw [pick]
  cases h : objects.find? fun a => uniqueName a == name with
  | some a => exact (Assurance.stateful σ).pure (mem_of_find?_key h).2
  | none => exact (Assurance.stateful σ).throw

private theorem named_hierarchyIn (name : String) (ds : List Dimension) :
    (Assurance.stateful σ).Ensures (p.hierarchyIn cube name ds)
      fun h => h.label.uniqueName = name := by
  induction ds with
  | nil => exact (Assurance.stateful σ).throw
  | cons d ds ih =>
    refine (Assurance.stateful σ).bind (Assurance.stateful_trivial _) fun hs _ => ?_
    cases hfind : hs.find? fun h => uniqueName h == name with
    | some h => exact (Assurance.stateful σ).pure (mem_of_find?_key hfind).2
    | none => exact ih

/-- **Every provider finds objects of the names that are looked up.** -/
theorem finds_named : Finds (Assurance.stateful σ) p cube named where
  dimensions := Assurance.stateful_trivial _
  hierarchy name := (Assurance.stateful σ).bind (Assurance.stateful_trivial _) fun ds _ =>
    p.named_hierarchyIn cube name ds
  levelOf member := (Assurance.stateful σ).bind (Assurance.stateful_trivial _) fun _ _ =>
    (Assurance.stateful σ).bind (Assurance.stateful_trivial _) fun ls _ =>
      named_pick ls member.level
  measures := Assurance.stateful_trivial _

end

/-! ### Axes -/

/-- The names in a part of the roll-up. -/
private def namesOf (part : Hierarchy × Level) : String × String :=
  (part.1.label.uniqueName, part.2.label.uniqueName)

/-- The names in the roll-up of an axis are those of the members on its first position. -/
private theorem map_namesOf {axis : Axis} {signature : List (Hierarchy × Level)}
    (h : axis.RollsUp named signature) : signature.map namesOf
      = (leadingMembers axis.positions).map fun a => (a.hierarchy, a.level) := by
  have hparts := h.parts
  generalize leadingMembers axis.positions = members at hparts
  clear h
  induction hparts with
  | nil => rfl
  | cons hpart _ ih =>
    obtain ⟨hhierarchy, hlevel⟩ := hpart
    rw [List.map_cons, List.map_cons, ih, namesOf, hhierarchy, hlevel]

/-- **An axis that is rolled up has a signature**, that of its first position. -/
private theorem hasSignature_of_rollsUp {axis : Axis} {signature : List (Hierarchy × Level)}
    (h : axis.RollsUp named signature) : axis.HasSignature (signature.map namesOf) := by
  rw [map_namesOf h]
  have hlevels : ∀ position ∈ axis.positions, position.levels
      = ((leadingMembers axis.positions).map fun a => (a.hierarchy, a.level)).map Prod.snd := by
    intro position hposition
    rw [h.levels position hposition, List.map_map]
    rfl
  refine ⟨?_, ?_, hlevels, ?_⟩
  · intro hnil
    rw [hnil]
    rfl
  · intro first hfirst
    obtain ⟨rest, hrest⟩ := List.head?_eq_some_iff.1 hfirst
    rw [hrest]
    rfl
  · intro htells position hposition
    cases hpositions : axis.positions with
    | nil =>
      rw [hpositions] at hposition
      cases hposition
    | cons first rest =>
      have hfirst : first ∈ axis.positions := hpositions ▸ List.mem_cons_self
      refine htells.signature_eq hposition hfirst ?_
      rw [hlevels position hposition, ← hlevels first hfirst]

/-- Nothing happens after a fault. -/
private theorem throw_bind {α β : Type} (e : Fault) (f : α → ExceptT Fault (StateM σ) β) :
    (throw e >>= f) = throw e := rfl

/-- An axis with a position in other levels is reported. -/
private theorem axisSignature_of_firstOther? (p : Provider (ExceptT Fault (StateM σ)))
    (cube : Cube) {axis : Axis} {position : Position} (h : axis.firstOther? = some position) :
    p.axisSignature cube axis
      = throw (heterogeneousFault axis axis.leadingLevels position) := by
  rw [Axis.firstOther?] at h
  unfold Provider.axisSignature
  cases hpositions : axis.positions with
  | nil =>
    rw [hpositions] at h
    cases h
  | cons first rest =>
    have hleading : axis.leadingLevels = first.levels := by
      rw [Axis.leadingLevels, hpositions]
      rfl
    rw [hleading] at h ⊢
    change (checkUniform axis first.levels >>= _) = _
    rw [checkUniform, h, throw_bind]

/-- **What holds of the axes of a plan**, for every provider, whatever its answers are and however
they change.  If a plan is made, then each axis has a signature, the roll-up consists of all of
these, the members on the first position of an axis have the hierarchies and levels of its
signature, and those on any other position have the same levels.  They have the same hierarchies as
well if the levels on the axis tell its hierarchies apart.  If the levels on an axis differ, no plan
is made: unless the measures, the dice or an earlier axis have a fault, the first position with
other levels is reported. -/
theorem uniform_of_planOfAxes (p : Provider (ExceptT Fault (StateM σ))) (cube : Cube)
    (axes : List Axis) (slicer : Option Axis) :
    (∀ before after plan, (p.planOfAxes cube axes slicer).run before = (.ok plan, after) →
      ∃ hierarchies levels operators signatures,
        plan.operators = .rollup hierarchies levels :: operators
        ∧ hierarchies.texts Column.hierarchyUniqueName = (List.flatten signatures).map Prod.fst
        ∧ levels.texts Column.levelUniqueName = signatures.flatten.map Prod.snd
        ∧ List.Forall₂ Axis.HasSignature axes signatures)
      ∧ ∀ ahead axis behind position, axes = ahead ++ axis :: behind →
        axis.firstOther? = some position → p.planOfAxes cube axes slicer = (do
          let _ ← p.projection cube axes slicer
          let _ ← p.diceSignature cube slicer
          let _ ← ahead.mapM (p.axisSignature cube)
          throw (heterogeneousFault axis axis.leadingLevels position)) := by
  constructor
  · intro before after plan h
    obtain ⟨parts, hfound, rfl⟩ := (p.finds_named cube).planOfAxes axes slicer before after plan h
    refine ⟨_, _, _, parts.rollup.map fun signature => signature.map namesOf, rfl, ?_, ?_, ?_⟩
    · rw [texts_rowSetOf_hierarchies, ← List.map_flatten, List.map_map, List.map_map]
      rfl
    · rw [texts_rowSetOf_levels, PlanParts.levels, ← List.map_flatten, List.map_map, List.map_map]
      rfl
    · refine List.forall₂_map_right_iff.2 (hfound.rollup.imp fun axis signature hrolls => ?_)
      exact hasSignature_of_rollsUp hrolls
  · rintro ahead axis behind position rfl hother
    -- the signatures of the axes are made in order
    have hsignature : p.rollupSignature cube (ahead ++ axis :: behind) = (do
        let _ ← ahead.mapM (p.axisSignature cube)
        throw (heterogeneousFault axis axis.leadingLevels position)) := by
      rw [rollupSignature, List.mapM_append, List.mapM_cons,
        axisSignature_of_firstOther? p cube hother]
      simp only [bind_assoc, throw_bind]
    rw [planOfAxes, hsignature]
    simp only [bind_assoc, throw_bind]

end Provider

/-- If the outcome of a run is no fault, the run has a value and leaves something. -/
theorem Outcome.exists_of_isOk {α β : Type} {x : Outcome α × β} (h : x.1.isOk = true) :
    ∃ a after, x = (.ok a, after) :=
  ⟨x.1.get h, x.2, Prod.ext (Outcome.eq_ok_get h) rfl⟩

/-- The members of the cube of sales with given unique names. -/
def salesMembers (names : List String) : List Member := names.filterMap salesCube.member?

/-- An axis with members of the cube of sales on its positions. -/
def salesAxis (ordinal : AxisOrdinal) (positions : List (List String)) : Axis :=
  .ofPositions ordinal (positions.zipIdx.map fun (names, i) => ⟨i, salesMembers names⟩)

/-- The columns with both countries. -/
def countryAxis : Axis := salesAxis (.index 0) [["[Geo].[AT]"], ["[Geo].[DE]"]]

/-- The columns with a country and a year. -/
def mixedAxis : Axis := salesAxis (.index 0) [["[Geo].[AT]"], ["[Time].[2020]"]]

set_option maxRecDepth 100000 in
/-- A plan is made of the countries, but none of a country and a year. -/
theorem Provider.uniform_of_planOfAxes_sales : (∃ plan after hierarchies levels operators signature,
    (salesConnection.store.provider.planOfAxes salesCube.cube [countryAxis] none).run ({}, ())
        = (.ok plan, after)
      ∧ plan.operators = .rollup hierarchies levels :: operators
      ∧ countryAxis.HasSignature signature
      ∧ levels.texts Column.levelUniqueName = signature.map Prod.snd)
    ∧ ∃ position, mixedAxis.firstOther? = some position
      ∧ salesConnection.store.provider.planOfAxes salesCube.cube [mixedAxis] none = (do
        let _ ← salesConnection.store.provider.projection salesCube.cube [mixedAxis] none
        let _ ← salesConnection.store.provider.diceSignature salesCube.cube none
        let _ ← [].mapM (salesConnection.store.provider.axisSignature salesCube.cube)
        throw (heterogeneousFault mixedAxis ["[Geo].[Country]"] position)) := by
  constructor
  · obtain ⟨_, _, hrun⟩ := Outcome.exists_of_isOk
      (x := (salesConnection.store.provider.planOfAxes salesCube.cube [countryAxis] none).run
        ({}, ())) (by decide +kernel)
    obtain ⟨hierarchies, levels, operators, signatures, hplan, -, hlevels, hsignatures⟩ :=
      (Provider.uniform_of_planOfAxes _ _ _ _).1 _ _ _ hrun
    cases hsignatures with
    | cons hsignature hrest =>
      cases hrest
      refine ⟨_, _, hierarchies, levels, operators, _, hrun, hplan, hsignature, ?_⟩
      rwa [List.flatten_singleton] at hlevels
  · obtain ⟨hother, hleading⟩ : mixedAxis.firstOther?.isSome = true
        ∧ mixedAxis.leadingLevels = ["[Geo].[Country]"] := by
      decide +kernel
    obtain ⟨position, hposition⟩ := Option.isSome_iff_exists.1 hother
    refine ⟨position, hposition, ?_⟩
    rw [← hleading]
    exact (Provider.uniform_of_planOfAxes _ _ [mixedAxis] none).2 [] mixedAxis [] position rfl
      hposition

/-! ### A unique name that two hierarchies share -/

namespace Years

/-- A cube with two hierarchies of dates.  Their levels have the name `Year` and no unique name, so
that `[Year]` is taken for the unique name of both. -/
def tables : TableEngine where
  listings := fun
    | .levels =>
      Calendars.table [Column.cubeName, Column.dimensionUniqueName, Column.hierarchyUniqueName,
          Column.levelName]
        [["Sales", "[Date]", "[Calendar]", "Year"], ["Sales", "[Date]", "[Fiscal]", "Year"]]
    | .measures =>
      Calendars.table [Column.cubeName, Column.dimensionUniqueName, Column.hierarchyUniqueName,
          Column.levelUniqueName, Column.measureName]
        [["Sales", "[Measures]", "[Measures]", "[Measures].[MeasuresLevel]", "Amount"]]
    | l => Calendars.tables.listings l
  result := .ok (.empty [])

/-- A store over the cube. -/
def store : Store Unit where
  engine := .ofAnswers tables.answer
  catalog := "LdCatalog"
  schema := "LdSchema"

/-- The columns with a year of the first hierarchy and then one of the second. -/
def axis : Axis := .ofPositions (.index 0)
  [⟨0, [Calendars.member "[Calendar]" "[2024]"]⟩, ⟨1, [Calendars.member "[Fiscal]" "[FY24]"]⟩]

set_option maxRecDepth 100000 in
/-- **Levels do not tell hierarchies apart.**  A plan is made of an axis whose second position has
its member in another hierarchy. -/
theorem not_uniform : ∃ plan after,
    (store.provider.planOfAxes Calendars.cube [axis] none).run ({}, ()) = (.ok plan, after)
      ∧ ∃ p ∈ axis.positions, ∃ q ∈ axis.positions, p.signature ≠ q.signature := by
  obtain ⟨plan, after, hrun⟩ := Outcome.exists_of_isOk
    (x := (store.provider.planOfAxes Calendars.cube [axis] none).run ({}, ()))
    (by decide +kernel)
  refine ⟨plan, after, hrun, ?_⟩
  exact ⟨_, List.mem_cons_self, _, List.mem_cons_of_mem _ List.mem_cons_self, by decide⟩

end Years

/-! ### The dice -/

namespace Provider

variable {σ : Type}

/-- The hierarchies of the dice are those of the members on the first of its positions. -/
private theorem texts_diced {axes : List Axis} {slicer : Option Axis} {parts : PlanParts}
    (h : parts.Found named axes slicer) :
    (rowSetOf parts.diced).texts Column.hierarchyUniqueName
      = (leadingMembers (dicePositions slicer)).map Member.hierarchy := by
  have hdiced := h.diced
  rw [texts_rowSetOf_hierarchies]
  refine List.forall₂_eq_eq_eq ▸ List.forall₂_map_left_iff.2 (List.forall₂_map_right_iff.2 ?_)
  exact hdiced.flip

/-- **What holds of the tuples of a dice**, for every provider, whatever its answers are and however
they change.  If a plan is made, then its dice has a tuple for each position of the slicer on which
there is a member other than a measure, with these members in order, and its hierarchies are those
of the members in the first tuple.  So every tuple has one member for each hierarchy of the dice, in
the same order, if and only if all those positions have their members in the same hierarchies. -/
theorem dice_of_planOfAxes (p : Provider (ExceptT Fault (StateM σ))) (cube : Cube)
    (axes : List Axis) (slicer : Option Axis) {before after : σ} {plan : Plan}
    (h : (p.planOfAxes cube axes slicer).run before = (.ok plan, after)) :
    ∃ rollup slice hierarchies tuples projection,
      plan.operators = [rollup, slice, .dice hierarchies tuples, projection]
      ∧ tuples = (dicePositions slicer).map (fun position => rowSetOf position.dimensionMembers)
      ∧ (tuples = [] → hierarchies.size = 0)
      ∧ (∀ first ∈ tuples.head?, first.texts Column.hierarchyUniqueName
        = hierarchies.texts Column.hierarchyUniqueName)
      ∧ ((∀ tuple ∈ tuples, tuple.texts Column.hierarchyUniqueName
          = hierarchies.texts Column.hierarchyUniqueName)
        ↔ ∀ x ∈ dicePositions slicer, ∀ y ∈ dicePositions slicer,
          x.hierarchies = y.hierarchies) := by
  obtain ⟨parts, hfound, rfl⟩ := (p.finds_named cube).planOfAxes axes slicer before after plan h
  refine ⟨_, _, _, _, _, rfl, rfl, ?_⟩
  have hlength := hfound.diced.length_eq
  rw [texts_diced hfound]
  -- there are no positions, or the first one gives the hierarchies
  cases hpositions : dicePositions slicer with
  | nil =>
    rw [hpositions] at hlength
    refine ⟨fun _ => ?_, nofun, iff_of_true nofun nofun⟩
    exact (List.length_map _).trans hlength.symm
  | cons first rest =>
    refine ⟨nofun, ?_, ?_⟩
    · rintro _ ⟨⟩
      exact texts_rowSetOf_members _
    · rw [List.forall_mem_map]
      simp only [texts_rowSetOf_members]
      constructor
      · intro hall x hx y hy
        exact (hall x hx).trans (hall y hy).symm
      · intro hall x hx
        exact hall x hx first List.mem_cons_self

end Provider

/-- A slicer with a country and a year on each position. -/
def pairSlicer : Option Axis :=
  some (salesAxis .slicer [["[Geo].[AT]", "[Time].[2020]"], ["[Geo].[DE]", "[Time].[2021]"]])

set_option maxRecDepth 100000 in
/-- All tuples have a country and a year. -/
theorem Provider.dice_of_planOfAxes_sales : ∃ plan after rollup slice hierarchies tuples projection,
    (salesConnection.store.provider.planOfAxes salesCube.cube [] pairSlicer).run ({}, ())
        = (.ok plan, after)
      ∧ plan.operators = [rollup, slice, .dice hierarchies tuples, projection]
      ∧ tuples.length = 2 ∧ ∀ tuple ∈ tuples, tuple.texts Column.hierarchyUniqueName
        = hierarchies.texts Column.hierarchyUniqueName := by
  obtain ⟨_, _, hrun⟩ := Outcome.exists_of_isOk
    (x := (salesConnection.store.provider.planOfAxes salesCube.cube [] pairSlicer).run ({}, ()))
    (by decide +kernel)
  obtain ⟨rollup, slice, hierarchies, tuples, projection, hplan, htuples, -, -, hiff⟩ :=
    Provider.dice_of_planOfAxes _ _ _ _ hrun
  refine ⟨_, _, rollup, slice, hierarchies, tuples, projection, hrun, hplan, ?_, hiff.2 ?_⟩
  · rw [htuples, List.length_map]
    decide +kernel
  · decide +kernel

/-- A slicer with a country on one position and a year on the other. -/
def mixedSlicer : Option Axis := some (salesAxis .slicer [["[Geo].[AT]"], ["[Time].[2020]"]])

set_option maxRecDepth 100000 in
/-- **The positions of a slicer need not match.**  A plan is made whose dice has a tuple with a
member of another hierarchy. -/
theorem Provider.dice_not_uniform : ∃ plan after rollup slice hierarchies tuples projection,
    (salesConnection.store.provider.planOfAxes salesCube.cube [] mixedSlicer).run ({}, ())
        = (.ok plan, after)
      ∧ plan.operators = [rollup, slice, .dice hierarchies tuples, projection]
      ∧ ∃ tuple ∈ tuples, tuple.texts Column.hierarchyUniqueName
        ≠ hierarchies.texts Column.hierarchyUniqueName := by
  obtain ⟨_, _, hrun⟩ := Outcome.exists_of_isOk
    (x := (salesConnection.store.provider.planOfAxes salesCube.cube [] mixedSlicer).run ({}, ()))
    (by decide +kernel)
  obtain ⟨parts, hfound, hplan⟩ :=
    (Provider.finds_named _ _).planOfAxes _ _ _ _ _ hrun
  refine ⟨_, _, _, _, _, _, _, hrun, congrArg Plan.operators hplan, ?_⟩
  refine ⟨rowSetOf (salesMembers ["[Time].[2020]"]), ?_, ?_⟩
  · decide +kernel
  · rw [Provider.texts_diced hfound, texts_rowSetOf_members]
    decide +kernel

end Datacube
