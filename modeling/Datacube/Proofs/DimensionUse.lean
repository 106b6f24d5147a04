import Datacube.Proofs.CellValues
import Datacube.Proofs.MemoryLookups
import Datacube.Proofs.Signatures

/-!
# Every dimension is rolled up or sliced

A plan aggregates over the dimensions that it slices and keeps those that it rolls up.  Both are
found for the members on the first positions of the axes.  Over a cube in memory they are right for
all positions: the plan slices a dimension if no position of an axis has a member of it, and rolls
it up otherwise.

## Main definitions

* `Query.Shows` — whether a position of an axis has a member of a dimension.

## Main results

* `PlanParts.Found.rolls_up_iff` — **the dimensions of the roll-up** are those that are shown.
* `PlanParts.Found.sliced_iff` — **the dimensions of the slice** are those that are not.
* `PlanParts.Found.texts_levels` — **the levels of the roll-up belong to its hierarchies**.
* `tuples_without_measures` — **no tuple of the dice has a measure**.
* `MemoryEngine.dimension_use` — **every dimension is rolled up or sliced** by the plan of a
  statement over a cube in memory.
-/

namespace Datacube

/-- Whether a position of an axis has a member of a dimension, measures left out. -/
def Query.Shows (q : Query) (dimension : String) : Prop :=
  ∃ axis ∈ q.axes, ∃ position ∈ axis.positions, ∃ a ∈ position.dimensionMembers,
    a.dimension = dimension

instance (q : Query) (dimension : String) : Decidable (q.Shows dimension) :=
  inferInstanceAs (Decidable (∃ axis ∈ q.axes, ∃ position ∈ axis.positions,
    ∃ a ∈ position.dimensionMembers, a.dimension = dimension))

/-! ### The roll-up -/

/-- **The dimensions of the roll-up** are those of the members on the axes, if hierarchies are found
in the dimensions of their names, and members in levels of one unique name are in one dimension. -/
theorem PlanParts.Found.rolls_up_iff {found : Findings} {axes : List Axis} {slicer : Option Axis}
    {parts : PlanParts} (h : parts.Found found axes slicer) {d : CubeDescription}
    (hfound : ∀ name hierarchy, found.hierarchy name hierarchy → hierarchy.dimension = name)
    (hmembers : ∀ axis ∈ axes, ∀ position ∈ axis.positions, ∀ a ∈ position.dimensionMembers,
      a.Within d) (dimension : String) :
    (∃ part ∈ parts.rollup.flatten, part.1.dimension = dimension)
      ↔ ∃ axis ∈ axes, ∃ position ∈ axis.positions, ∃ a ∈ position.dimensionMembers,
        a.dimension = dimension := by
  constructor
  · rintro ⟨part, hpart, rfl⟩
    obtain ⟨axis, haxis, a, ha, hhierarchy, -⟩ := h.exists_of_mem_rollup hpart
    obtain ⟨position, hposition, ha⟩ := mem_of_mem_leadingMembers ha
    have hdimension := (hmembers axis haxis position hposition a ha).dimension_eq.1
    exact ⟨axis, haxis, position, hposition, a, ha,
      hdimension.trans (hfound _ _ hhierarchy).symm⟩
  · rintro ⟨axis, haxis, position, hposition, a, ha, rfl⟩
    -- the roll-up was found for a member of the same level on the first position
    obtain ⟨part, hpart, b, hb, hlevel, hhierarchy, -⟩ := h.exists_part haxis hposition ha
    obtain ⟨first, hfirst, hb⟩ := mem_of_mem_leadingMembers hb
    have hbwithin := hmembers axis haxis first hfirst b hb
    have hsame := (hbwithin.same (hmembers axis haxis position hposition a ha) hlevel).1
    refine ⟨part, hpart, ?_⟩
    rw [hfound _ _ hhierarchy, ← hbwithin.dimension_eq.1, hsame]

/-- The dimensions of the rows of the roll-up. -/
private theorem texts_rollup (parts : PlanParts) :
    (rowSetOf (parts.rollup.flatten.map Prod.fst)).texts Column.dimensionUniqueName
      = parts.rollup.flatten.map fun part => part.1.dimension := by
  rw [texts_rowSetOf (f := Hierarchy.dimension) fun _ => rfl, List.map_map]
  rfl

/-- **The levels of the roll-up belong to its hierarchies**, in order, if a level is found in the
hierarchy that a member gives. -/
theorem PlanParts.Found.texts_levels {found : Findings} {axes : List Axis} {slicer : Option Axis}
    {parts : PlanParts} (h : parts.Found found axes slicer)
    (hhierarchy : ∀ name hierarchy, found.hierarchy name hierarchy →
      hierarchy.label.uniqueName = name)
    (hlevel : ∀ a l, found.level a l → l.hierarchy = a.hierarchy) :
    (rowSetOf parts.levels).texts Column.hierarchyUniqueName
      = (rowSetOf (parts.rollup.flatten.map Prod.fst)).texts Column.hierarchyUniqueName := by
  rw [PlanParts.levels, texts_rowSetOf_hierarchies,
    texts_rowSetOf (f := Level.hierarchy) fun _ => rfl, List.map_map, List.map_map]
  refine List.map_congr_left fun part hpart => ?_
  obtain ⟨axis, -, a, -, hfound, hfoundLevel⟩ := h.exists_of_mem_rollup hpart
  exact (hlevel a part.2 hfoundLevel).trans (hhierarchy a.hierarchy part.1 hfound).symm

/-! ### The slice -/

/-- **The dimensions of the slice** are those of the cube that are not rolled up, measures left
out. -/
theorem PlanParts.Found.sliced_iff {found : Findings} {axes : List Axis} {slicer : Option Axis}
    {parts : PlanParts} (h : parts.Found found axes slicer) {dimension : String}
    (hne : dimension ≠ measuresDimension)
    (hlisted : ∀ ds, found.dimensions ds →
      ∃ y ∈ ds, y.label.uniqueName = dimension ∧ y.isMeasures = false) :
    dimension ∈ (rowSetOf parts.sliced).texts Column.dimensionUniqueName
      ↔ ¬ ∃ part ∈ parts.rollup.flatten, part.1.dimension = dimension := by
  rw [texts_rowSetOf (f := fun y : Dimension => y.label.uniqueName) fun _ => rfl, List.mem_map]
  obtain ⟨ds, hds, hsliced⟩ := h.sliced
  constructor
  · rintro ⟨y, hy, rfl⟩ ⟨part, hpart, hdimension⟩
    obtain ⟨-, -, -, hnone⟩ := (hsliced y).1 hy
    exact hnone part hpart hdimension
  · intro hnone
    obtain ⟨y, hy, rfl, hmeasures⟩ := hlisted ds hds
    refine ⟨y, (hsliced y).2 ⟨hy, hmeasures, hne, fun part hpart hdimension => ?_⟩, rfl⟩
    exact hnone ⟨part, hpart, hdimension⟩

/-! ### The dice -/

/-- The measures do not stand among the dimensions of a row set of members. -/
private theorem texts_dimension_ne {members : List Member} {d : CubeDescription}
    (hd : "Measures" ∉ d.dimensions.map DimensionDescription.name)
    (hmembers : ∀ a ∈ members, a.Within d) :
    measuresDimension ∉ (rowSetOf members).texts Column.dimensionUniqueName := by
  rw [texts_rowSetOf (f := Member.dimension) fun _ => rfl]
  intro hmem
  obtain ⟨a, ha, hdimension⟩ := List.mem_map.1 hmem
  exact (hmembers a ha).dimension_ne hd hdimension

/-- The members in a row set of members that are no measures are of other types. -/
private theorem isMeasure_of_mem_texts {members : List Member}
    (hmembers : ∀ a ∈ members, a.isMeasure = false) :
    ∀ code ∈ (rowSetOf members).texts Column.memberType,
      (MemberType.parse code).isMeasure = false := by
  rw [texts_rowSetOf (f := fun a : Member => a.type.code.repr) fun _ => rfl, List.forall_mem_map]
  intro a ha
  rw [MemberType.parse_repr_code]
  exact hmembers a ha

/-- **No tuple of the dice has the dimension of the measures or a measure.** -/
theorem tuples_without_measures {d : CubeDescription}
    (hd : "Measures" ∉ d.dimensions.map DimensionDescription.name) {slicer : Option Axis}
    (hmembers : ∀ axis ∈ slicer, ∀ position ∈ axis.positions, ∀ a ∈ position.dimensionMembers,
      a.Within d) :
    ∀ tuple ∈ (dicePositions slicer).map fun position => rowSetOf position.dimensionMembers,
      measuresDimension ∉ tuple.texts Column.dimensionUniqueName
        ∧ ∀ code ∈ tuple.texts Column.memberType, (MemberType.parse code).isMeasure = false := by
  refine List.forall_mem_map.2 fun position hposition => ⟨?_, ?_⟩
  · refine texts_dimension_ne hd fun a ha => ?_
    rw [dicePositions_eq_filter] at hposition
    have hmem := (List.mem_filter.1 hposition).1
    cases hslicer : slicer with
    | none =>
      rw [hslicer] at hmem
      cases hmem
    | some axis =>
      rw [hslicer] at hmem
      exact hmembers axis hslicer position hmem a ha
  · refine isMeasure_of_mem_texts fun a ha => ?_
    simpa using (List.mem_filter.1 ha).2

/-! ### Statements over a cube in memory -/

/-- The only dimension of the type of measures is that of the measures. -/
theorem MemoryCube.Filled.isMeasures_eq_false {c : MemoryCube} {d : CubeDescription}
    (hfilled : c.Filled d) (htypes : ∀ dim ∈ d.dimensions, dim.type ≠ .measure) {x : Dimension}
    (hx : x ∈ c.dimensions) (hne : x.label.uniqueName ≠ measuresDimension) :
    x.isMeasures = false := by
  rw [hfilled.dimensions] at hx
  rcases CubeDescription.mem_dimensions.1 hx with ⟨dim, ordinal, hdim, rfl⟩ | ⟨-, rfl⟩
  · exact beq_false_of_ne (htypes dim (List.mem_of_getElem? hdim))
  · exact absurd rfl hne

namespace MemoryEngine

/-- **Every dimension is rolled up or sliced.**  An engine serves a cube that was built from a
description in which no dimension is called like the measures or of their type, and no other cube
answers to its name.  After any uses of a connection to that engine, for every statement without
resolved objects that can be planned over the cube: a dimension of the cube other than that of the
measures is a row of the slice if no position of an axis has a member of it, and otherwise it is the
dimension of a hierarchy of the roll-up.  The levels of the roll-up belong to its hierarchies, in
order.  Neither the roll-up nor a tuple of the dice has the dimension of the measures or a
measure. -/
theorem dimension_use {d : CubeDescription} {c : MemoryCube} (hbuild : d.build = .ok c)
    (hnames : "Measures" ∉ d.dimensions.map DimensionDescription.name)
    (htypes : ∀ dim ∈ d.dimensions, dim.type ≠ .measure) {catalogName schemaName : String}
    {cubes : List MemoryCube} (hc : c ∈ cubes)
    (honly : ∀ c' ∈ cubes, isNamed c'.cube c.cube.label.name = true → c' = c) (config : Config)
    (calls : List Call) {statement : Select Expr} (hobjects : statement.objects = []) {plan : Plan}
    (h : ((((ofCubes catalogName schemaName cubes).connection config).after calls).run
      (·.explain statement)).1 = .ok plan) :
    ∃ query, ((((ofCubes catalogName schemaName cubes).connection config).after calls).run
        (·.planned statement)).1 = .ok (query, plan)
      ∧ (query.cube.label.name = c.cube.label.name →
        ∃ hierarchies levels dimensions diced tuples projection,
          plan.operators = [.rollup hierarchies levels, .slice dimensions, .dice diced tuples,
            projection]
          ∧ (∀ x ∈ c.dimensions, x.label.uniqueName ≠ measuresDimension →
            (x.label.uniqueName ∈ dimensions.texts Column.dimensionUniqueName
              ↔ ¬ query.Shows x.label.uniqueName)
            ∧ (x.label.uniqueName ∈ hierarchies.texts Column.dimensionUniqueName
              ↔ query.Shows x.label.uniqueName))
          ∧ levels.texts Column.hierarchyUniqueName = hierarchies.texts Column.hierarchyUniqueName
          ∧ measuresDimension ∉ hierarchies.texts Column.dimensionUniqueName
          ∧ ∀ tuple ∈ tuples, measuresDimension ∉ tuple.texts Column.dimensionUniqueName
            ∧ ∀ code ∈ tuple.texts Column.memberType,
              (MemberType.parse code).isMeasure = false) := by
  set e := ofCubes catalogName schemaName cubes with he
  have hbuilt := CubeDescription.built hbuild
  have hfilled := CubeDescription.filled hbuild
  -- a statement is explained by evaluating and planning it
  have hrun := Session.run_return (Prod.snd : Query × Plan → Plan)
    (((e.connection config).after calls).store.planned statement)
    (((e.connection config).after calls).shelves, ((e.connection config).after calls).state)
  obtain ⟨⟨query, plan'⟩, hplanned, rfl⟩ :=
    Outcome.map_eq_ok.1 ((congrArg Prod.fst hrun).symm.trans h)
  refine ⟨query, hplanned, fun hname => ?_⟩
  have hserves : ∀ o ∈ statement.objects, c.Serves o := by
    rw [hobjects]
    exact fun _ ho => absurd ho List.not_mem_nil
  obtain ⟨hquery, -⟩ := planned_on honly hc hserves hplanned hname
  obtain ⟨hknown, parts, hparts, hplan⟩ := planned_found hplanned
  have hamong : (e.connection config).store.Among e.answer query.cube (.cube query.cube) := by
    refine hknown.elim id fun hmem => ?_
    rw [hobjects] at hmem
    cases hmem
  have hwithin : ∀ axis ∈ query.axes ++ query.slicer.toList, ∀ position ∈ axis.positions,
      ∀ a ∈ position.dimensionMembers, a.Within d := by
    intro axis haxis position hposition a ha
    obtain ⟨hserved, hmeasure⟩ :=
      serves_of_mem_dimensionMembers hquery hserves haxis hposition ha
    exact hfilled.within_of_serves hserved hmeasure
  have hrolls := hparts.rolls_up_iff
    (fun name hierarchy hfound => dimension_of_found honly hname hfilled hfound)
    fun axis haxis => hwithin axis (List.mem_append_left _ haxis)
  have hshows : ∀ dimension, dimension ∈ (rowSetOf (parts.rollup.flatten.map Prod.fst)).texts
      Column.dimensionUniqueName ↔ query.Shows dimension := by
    intro dimension
    rw [texts_rollup, List.mem_map]
    exact hrolls dimension
  refine ⟨_, _, _, _, _, _, congrArg Plan.operators hplan, ?_, ?_, ?_, ?_⟩
  · intro x hx hne
    refine ⟨?_, hshows _⟩
    refine (hparts.sliced_iff hne fun ds hds => ?_).trans (not_congr (hrolls _))
    obtain ⟨y, hy, hyx, htype⟩ := exists_dimension honly hname hbuilt hfilled hamong hds hx
    refine ⟨y, hy, hyx, ?_⟩
    rw [Dimension.isMeasures, htype]
    exact hfilled.isMeasures_eq_false htypes hx hne
  · exact hparts.texts_levels (fun _ _ hfound => hfound.1)
      fun _ _ hfound => (level_of_found honly hname hbuilt hfound).2.2.2
  · rw [hshows]
    rintro ⟨axis, haxis, position, hposition, a, ha, hdimension⟩
    have ha' := hwithin axis (List.mem_append_left _ haxis) position hposition a ha
    exact ha'.dimension_ne hnames hdimension
  · refine tuples_without_measures hnames fun axis haxis => ?_
    exact hwithin axis (List.mem_append_right _ (Option.mem_toList.2 haxis))

set_option maxRecDepth 100000 in
/-- Countries are on the columns, so places are rolled up and years are sliced. -/
theorem dimension_use_year : ∃ plan hierarchies levels dimensions diced tuples projection,
    ((((ofCubes "LdCatalog" "LdSchema" [salesCube]).connection {}).after
      [.execute yearStatement]).run (·.explain yearStatement)).1 = .ok plan
      ∧ plan.operators = [.rollup hierarchies levels, .slice dimensions, .dice diced tuples,
        projection]
      ∧ "[Geo]" ∈ hierarchies.texts Column.dimensionUniqueName
      ∧ "[Time]" ∈ dimensions.texts Column.dimensionUniqueName := by
  let c := ((ofCubes "LdCatalog" "LdSchema" [salesCube]).connection {}).after
    [.execute yearStatement]
  have hok : (c.run (·.explain yearStatement)).1.isOk = true := by decide +kernel
  have hexplain := Outcome.eq_ok_get hok
  obtain ⟨query, hquery, huse⟩ :=
    dimension_use build_sales (by decide) (by decide) List.mem_cons_self
      (fun _ hc _ => List.mem_singleton.1 hc) {} [.execute yearStatement] rfl hexplain
  obtain ⟨planned, hplanned, hcube, hgeo, htime⟩ := Outcome.exists_of_map_decide
    (x := (c.run (·.planned yearStatement)).1)
    (P := fun planned => planned.1.cube.label.name = salesCube.cube.label.name
      ∧ planned.1.Shows "[Geo]" ∧ ¬ planned.1.Shows "[Time]") (by decide +kernel)
  rw [congrArg Prod.fst (Except.ok.inj (hplanned.symm.trans hquery))] at hcube hgeo htime
  obtain ⟨hierarchies, levels, dimensions, diced, tuples, projection, hplan, hdimensions, -⟩ :=
    huse hcube
  obtain ⟨⟨x, hx, hxname⟩, y, hy, hyname⟩ :
      (∃ x ∈ salesCube.dimensions, x.label.uniqueName = "[Geo]")
        ∧ ∃ y ∈ salesCube.dimensions, y.label.uniqueName = "[Time]" := by
    decide +kernel
  have hrolled := (hdimensions x hx (hxname ▸ by decide)).2
  have hsliced := (hdimensions y hy (hyname ▸ by decide)).1
  rw [hxname] at hrolled
  rw [hyname] at hsliced
  exact ⟨_, hierarchies, levels, dimensions, diced, tuples, projection, hexplain, hplan,
    hrolled.2 hgeo, hsliced.2 htime⟩

end MemoryEngine

end Datacube
