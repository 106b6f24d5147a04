import Datacube.Memory.Description
import Datacube.Memory.Engine
import Datacube.Proofs.Stores

/-!
# Access to cells

The plan of a query, its cell set, and every single cell determine for themselves by which members
a value is found.  They agree: a cell has one member for each roll-up level, in the same order, and
its measure is among those that the plan projects.  So the only faults in the access to a cell are
coordinates outside the grid and two measures at once.  There is one exception: a statement may name
a measure by an object instead of an identifier, and this object may have no unique name.

## Main definitions

* `positionsAt` — the positions at coordinates; `CellSet.measureAt?` — the measure of a cell.
* `Axis.Evaluated` — whether an axis is described by a value.
* `IsNamed` — the condition on schema objects on which the reading of measures relies.
* `Select.Unkeyed` — the measures of a statement that do not satisfy it.
* `CellSet.Sound` — what the access to cells relies on.
* `sales`, `salesConnection` — a cube and a connection to an engine that serves it.

## Main results

* `PlanParts.Fit.levels_at` — **the members of a cell belong to the roll-up levels**.
* `CellSet.measureAt?_cases` — every cell has a measure, if there are any.
* `CellSet.Sound.cell_cases` — the four outcomes of an access to a cell.
* `Connection.key_agrees` — **the key of every cell is laid out as in the plan**.
* `Connection.cell_total` — **the access to a cell fails only for its coordinates, two measures, or
  a measure without a unique name**.
* `Connection.not_key_agrees`, `Connection.not_cell_total` — a measure without a unique name.
-/

namespace Datacube

/-! ### The grid -/

theorem numberOf_eq_ok {coordinates sizes : List Nat}
    (h : List.Forall₂ (· < ·) coordinates sizes) : ∃ n, numberOf sizes coordinates = .ok n := by
  induction h with
  | nil => exact ⟨0, rfl⟩
  | cons hlt _ ih =>
    obtain ⟨n, hn⟩ := ih
    rw [numberOf, if_pos hlt, hn]
    exact ⟨_, rfl⟩

/-- A coordinate that is not below the size of its axis is reported. -/
theorem numberOf_eq_error {coordinates sizes : List Nat}
    (hlength : coordinates.length = sizes.length)
    (h : ¬ List.Forall₂ (· < ·) coordinates sizes) :
    ∃ index size, numberOf sizes coordinates = .error (.indexOutOfBounds index size) := by
  induction coordinates generalizing sizes with
  | nil =>
    cases sizes with
    | nil => exact absurd .nil h
    | cons => cases hlength
  | cons coordinate coordinates ih =>
    cases sizes with
    | nil => cases hlength
    | cons size sizes =>
      rw [numberOf]
      split
      · rename_i hlt
        obtain ⟨index, bound, hrest⟩ := ih (Nat.succ.inj hlength) fun hrest => h (.cons hlt hrest)
        exact ⟨index, bound, by rw [hrest]; rfl⟩
      · exact ⟨coordinate, size, rfl⟩

theorem ordinalOf_eq_ok {coordinates sizes : List Nat}
    (h : List.Forall₂ (· < ·) coordinates sizes) : ∃ n, ordinalOf sizes coordinates = .ok n := by
  rw [ordinalOf, if_pos h.length_eq]
  exact numberOf_eq_ok h

theorem ordinalOf_eq_error {coordinates sizes : List Nat}
    (h : ¬ List.Forall₂ (· < ·) coordinates sizes) :
    ∃ index size, ordinalOf sizes coordinates = .error (.indexOutOfBounds index size) := by
  rw [ordinalOf]
  split
  · rename_i hlength
    exact numberOf_eq_error hlength h
  · exact ⟨_, _, rfl⟩

/-- The positions of axes at coordinates, one for each axis. -/
def positionsAt (axes : List Axis) (coordinates : List Nat) : List Position :=
  (axes.zip coordinates).filterMap fun (axis, coordinate) => axis.positions[coordinate]?

theorem CellSet.positionsAt_eq (s : CellSet) (coordinates : List Nat) :
    s.positionsAt coordinates = Datacube.positionsAt s.axes coordinates := rfl

theorem mem_positionsAt {axes : List Axis} {coordinates : List Nat} {position : Position}
    (h : position ∈ positionsAt axes coordinates) : ∃ axis ∈ axes, position ∈ axis.positions := by
  obtain ⟨⟨axis, coordinate⟩, hmem, hposition⟩ := List.mem_filterMap.1 h
  exact ⟨axis, (List.of_mem_zip hmem).1, List.mem_of_getElem? hposition⟩

/-! ### Keys -/

/-- The members of positions, measures left out. -/
def dimensionMembersAt (axes : List Axis) (coordinates : List Nat) : List Member :=
  (positionsAt axes coordinates).flatMap Position.dimensionMembers

/-- The key of a cell has the canonical names of its members. -/
theorem CellSet.keyOf_positionsAt (s : CellSet) (coordinates : List Nat) :
    keyOf (s.positionsAt coordinates) = (dimensionMembersAt s.axes coordinates).map
      fun a => canonicalName a.label.uniqueName := rfl

/-- **The members of a cell belong to the levels of its axes**, one to each and in the same order,
if every position of an axis has its members in the levels of the axis. -/
theorem levels_dimensionMembersAt {axes : List Axis} {rollup : List (List (Hierarchy × Level))}
    (h : List.Forall₂ (fun axis signature => ∀ position ∈ axis.positions,
      position.levels = signature.map fun part => part.2.label.uniqueName) axes rollup)
    {coordinates : List Nat} (hc : List.Forall₂ (· < ·) coordinates (axes.map Axis.size)) :
    (dimensionMembersAt axes coordinates).map Member.level
      = rollup.flatten.map fun part => part.2.label.uniqueName := by
  -- along the axes, each with its coordinate and its part of the roll-up
  induction h generalizing coordinates with
  | nil =>
    cases hc
    rfl
  | @cons axis signature axes rollup hrolls _ ih =>
    rw [List.map_cons] at hc
    cases hc with
    | @cons coordinate _ coordinates _ hlt hc =>
      have hlt' : coordinate < axis.positions.length := hlt
      have hcons : positionsAt (axis :: axes) (coordinate :: coordinates)
          = axis.positions[coordinate] :: positionsAt axes coordinates := by
        simp only [positionsAt, List.zip_cons_cons, List.filterMap_cons,
          List.getElem?_eq_getElem hlt']
      have hlevels := hrolls _ (List.getElem_mem hlt')
      rw [Position.levels] at hlevels
      rw [dimensionMembersAt, hcons, List.flatMap_cons, List.map_append, hlevels,
        List.flatten_cons, List.map_append]
      exact congrArg _ (ih hc)

/-- **The members of a cell belong to the roll-up levels**, one to each and in the same order. -/
theorem PlanParts.Fit.levels_at {ok : Cube → SchemaObject → Prop} {cube : Cube} {axes : List Axis}
    {slicer : Option Axis} {parts : PlanParts} (h : parts.Fit ok cube axes slicer)
    {coordinates : List Nat} (hc : List.Forall₂ (· < ·) coordinates (axes.map Axis.size)) :
    (dimensionMembersAt axes coordinates).map Member.level
      = parts.levels.map fun l => l.label.uniqueName := by
  rw [levels_dimensionMembersAt (h.rollup.imp fun _ _ hrolls => hrolls.2) hc, PlanParts.levels,
    List.map_map]
  rfl

/-- The texts of a column, one for each row; an absent value is empty. -/
def RowSet.texts (r : RowSet) (column : String) : List String :=
  r.tuples.map fun row => (row.text? column).getD ""

/-- What stands in a column of the rows of objects. -/
theorem texts_rowSetOf {α : Type} [Record α] {column : String} {f : α → String}
    (h : ∀ a, (rowOf a).text? column = presence (f a)) (objects : List α) :
    (rowSetOf objects).texts column = objects.map f := by
  rw [RowSet.texts, tuples_rowSetOf_eq_map, List.map_map]
  refine List.map_congr_left fun a _ => ?_
  rw [Function.comp_apply, h, presence_getD]

theorem texts_rowSetOf_levels (levels : List Level) :
    (rowSetOf levels).texts Column.levelUniqueName
      = levels.map fun l => l.label.uniqueName :=
  texts_rowSetOf (fun _ => rfl) levels

theorem texts_measureRowSet (measures : List Member) :
    (measureRowSet measures).texts Column.measureUniqueName
      = measures.map fun a => a.label.uniqueName := by
  rw [RowSet.texts, tuples_measureRowSet, List.map_map]
  exact List.map_congr_left fun a _ => presence_getD _

/-! ### Names of measures -/

/-- Whether an object is no member or a member whose label is keyed: the unique name is the key of
a member, so that a member with a name has one.  Members that are read from rows do. -/
def IsNamed : SchemaObject → Prop
  | .member a => a.label.Keyed
  | _ => True

theorem isNamed_of_read {row : Row} {a : Member} (h : Record.read row = .ok a) :
    IsNamed (.member a) :=
  fun hu => absurd hu (Member.label_of_read h).2.1

theorem isNamed_of_readMeasure {row : Row} {ordinal : Nat} {a : Member}
    (h : readMeasure row ordinal = .ok a) : IsNamed (.member a) :=
  fun hu => absurd hu (label_of_readMeasure h).2.1

/-- Whatever an engine answers, the members that are read from it have unique names. -/
theorem Engine.lists_named {σ : Type} (engine : Engine σ) :
    engine.Lists fun _ => IsNamed := by
  intro listing restrictions state rows state' _ objects hobjects o ho
  cases listing with
  | databases | catalogs | schemas =>
    cases hobjects
    cases ho
  | cubes | dimensions | hierarchies | levels =>
    obtain ⟨as, -, rfl⟩ := Outcome.map_eq_ok.1 hobjects
    obtain ⟨a, -, rfl⟩ := List.mem_map.1 ho
    trivial
  | measures =>
    obtain ⟨ms, hms, rfl⟩ := Outcome.map_eq_ok.1 hobjects
    obtain ⟨a, ha, rfl⟩ := List.mem_map.1 ho
    obtain ⟨row, -, ordinal, hrow⟩ := exists_left_of_forall₂ (forall₂_readMeasures hms) ha
    exact isNamed_of_readMeasure hrow
  | members =>
    obtain ⟨ms, hms, rfl⟩ := Outcome.map_eq_ok.1 hobjects
    obtain ⟨a, ha, rfl⟩ := List.mem_map.1 ho
    obtain ⟨row, -, hrow⟩ := exists_left_of_forall₂ (Outcome.mapM_eq_ok.1 hms) ha
    exact isNamed_of_read hrow

theorem Store.isNamed_of_listed {cube : Cube} (o : SchemaObject)
    (h : Store.Listed (fun _ => IsNamed) cube o) : IsNamed o := by
  cases o <;> exact h

/-- The label of an identifier is keyed: without segments there is no name either. -/
theorem Identifier.keyed (i : Identifier) : (Label.ofName i.uniqueName i.name).Keyed := by
  obtain ⟨segments⟩ := i
  cases segments with
  | nil => exact fun _ => rfl
  | cons segment segments =>
    intro h
    have hchars := congrArg String.toList h
    cases segments <;>
      simp [Label.ofName, Identifier.uniqueName, joinSegments, quoteSegment, quoteChars,
        String.intercalate_cons_cons] at hchars

/-- The members of a result are keyed, unless they stand in the statement. -/
theorem Query.OfStatement.keyed_or_mem {ok : Cube → SchemaObject → Prop} {s : Select Expr}
    {q : Query} (h : q.OfStatement ok s) (hok : ∀ o, ok q.cube o → IsNamed o) {axis : Axis}
    (haxis : axis ∈ q.axes ++ q.slicer.toList) {a : Member}
    (ha : a ∈ Axis.membersOf axis.positions) : a.label.Keyed ∨ .member a ∈ s.objects := by
  have hknown : ∀ a, s.Knows ok q.cube (.member a) → a.label.Keyed ∨ .member a ∈ s.objects :=
    fun _ => Or.imp_left (hok _)
  rcases h.member axis haxis a ha with ha | ha
  · exact hknown a ha
  · have hkeyed := h.calculated.forall (P := fun a => a.label.Keyed ∨ .member a ∈ s.objects) hknown
      fun name _ _ _ _ _ _ _ _ _ => .inl name.keyed
    exact hkeyed a ha

/-- A measure that stands in a statement as a resolved object and has a name, but no unique name.
Neither what is read from rows nor what is defined is such a measure. -/
structure Select.Unkeyed (s : Select Expr) (a : Member) : Prop where
  mem : .member a ∈ s.objects
  isMeasure : a.isMeasure = true
  uniqueName : a.label.uniqueName = ""
  name : a.label.name ≠ ""

theorem Select.not_unkeyed {s : Select Expr} (h : ∀ o ∈ s.objects, IsNamed o) (a : Member) :
    ¬ s.Unkeyed a :=
  fun ha => ha.name (h _ ha.mem ha.uniqueName)

/-- What the slicer of a query holds is held by one of its axes. -/
theorem Query.exists_axis_of_mem_slicer {α : Type} {q : Query} {f : Axis → List α}
    (hempty : f (Axis.empty .slicer) = []) {x : α}
    (hx : x ∈ f (q.slicer.getD (Axis.empty .slicer))) :
    ∃ axis ∈ q.axes ++ q.slicer.toList, x ∈ f axis := by
  cases hslicer : q.slicer with
  | none =>
    rw [hslicer, Option.getD_none, hempty] at hx
    cases hx
  | some axis =>
    rw [hslicer] at hx
    exact ⟨axis, List.mem_append_right _ (List.mem_singleton.2 rfl), hx⟩

/-! ### Cell sets -/

namespace CellSet

/-- Whatever its measures are, a cell set has the axes of its query and the executed plan. -/
theorem fields_of_ofResult {query : Query} {plan : Plan} {result : RowSet} {s : CellSet}
    (h : CellSet.ofResult query plan result = .ok s) : s.cube = query.cube ∧ s.axes = query.axes
      ∧ s.slicer = query.slicer.getD (Axis.empty .slicer) ∧ s.plan = plan := by
  unfold ofResult at h
  split at h <;>
  · obtain ⟨measures, -, h⟩ := Outcome.bind_eq_ok.1 h
    obtain ⟨cache, -, h⟩ := Outcome.bind_eq_ok.1 h
    cases h
    exact ⟨rfl, rfl, rfl, rfl⟩

theorem parts_of_ofResult {query : Query} {plan : Plan} {result : RowSet} {s : CellSet}
    {rows : RowSet} (hrows : plan.projectedMeasures? = some rows)
    (h : CellSet.ofResult query plan result = .ok s) :
    s.cube = query.cube ∧ s.axes = query.axes ∧ s.slicer = query.slicer.getD (Axis.empty .slicer)
      ∧ readMeasures rows = .ok s.measures
      ∧ CellCache.ofResult result (keyWidth query.axes) s.measures.length = .ok s.cache := by
  rw [ofResult, hrows] at h
  obtain ⟨measures, hmeasures, h⟩ := Outcome.bind_eq_ok.1 h
  obtain ⟨cache, hcache, h⟩ := Outcome.bind_eq_ok.1 h
  cases h
  exact ⟨rfl, rfl, rfl, hmeasures, hcache⟩

variable (s : CellSet)

/-- The measure of a cell at positions: the one on them, or else the first of the slicer, or else
the first of the plan. -/
def measureAt? (positions : List Position) : Option Member :=
  ((positions.flatMap Position.measures).head?.or s.slicer.measures.head?).or s.measures.head?

/-- What the access to cells relies on: there are measures, all of them have unique names, and
those on the axes and on the slicer are among them if they have unique names as well. -/
structure Sound : Prop where
  nonempty : s.measures ≠ []
  keyed : ∀ b ∈ s.measures, b.label.uniqueName ≠ ""
  axes : ∀ axis ∈ s.axes, ∀ position ∈ axis.positions, ∀ a ∈ position.measures,
    a.label.uniqueName ≠ "" → ∃ b ∈ s.measures, b.label.uniqueName = a.label.uniqueName
  slicer : ∀ a ∈ s.slicer.measures, a.label.uniqueName ≠ "" →
    ∃ b ∈ s.measures, b.label.uniqueName = a.label.uniqueName

variable {s} {positions : List Position}

/-- **The measure of a cell** is looked for by its unique name if it stands on the positions or on
the slicer; otherwise it is the first one of the plan. -/
theorem measureAt?_cases (hs : s.measures ≠ [])
    (hone : (positions.flatMap Position.measures).length < 2) :
    ∃ a, s.measureAt? positions = some a
      ∧ ((a ∈ positions.flatMap Position.measures ∨ a ∈ s.slicer.measures)
          ∧ s.measureName? positions = .ok (some a.label.uniqueName)
        ∨ s.measures.head? = some a ∧ s.measureName? positions = .ok none) := by
  rw [measureAt?, measureName?]
  cases hmeasures : positions.flatMap Position.measures with
  | nil =>
    cases hslicer : s.slicer.measures with
    | nil =>
      obtain ⟨first, rest, hfirst⟩ := List.exists_cons_of_ne_nil hs
      rw [hfirst]
      exact ⟨first, rfl, .inr ⟨rfl, rfl⟩⟩
    | cons a rest => exact ⟨a, rfl, .inl ⟨.inr List.mem_cons_self, rfl⟩⟩
  | cons a rest =>
    cases rest with
    | nil => exact ⟨a, rfl, .inl ⟨.inl List.mem_cons_self, rfl⟩⟩
    | cons b rest =>
      rw [hmeasures] at hone
      exact absurd hone (by simp)

/-- The index that is found for the name of a measure. -/
private theorem findIdx?_measure {measures : List Member} {name : String}
    (h : ∃ b ∈ measures, b.label.uniqueName = name) : ∃ index b,
      measures.findIdx? (fun b => b.label.uniqueName == name) = some index
        ∧ measures[index]? = some b ∧ b.label.uniqueName = name := by
  obtain ⟨b, hb, hname⟩ := h
  cases hindex : measures.findIdx? fun b => b.label.uniqueName == name with
  | none => exact absurd hname (by simpa using List.findIdx?_eq_none_iff.1 hindex b hb)
  | some index =>
    obtain ⟨hlt, hfound, -⟩ := List.findIdx?_eq_some_iff_getElem.1 hindex
    exact ⟨index, measures[index], rfl, List.getElem?_eq_getElem hlt, eq_of_beq hfound⟩

/-- **A measure with a unique name has an index** among the measures of the plan, and the measure of
that index has this unique name. -/
theorem Sound.measureIndex (hs : s.Sound)
    (hmem : ∀ position ∈ positions, ∃ axis ∈ s.axes, position ∈ axis.positions)
    (hone : (positions.flatMap Position.measures).length < 2) {a : Member}
    (ha : s.measureAt? positions = some a) (hkey : a.label.uniqueName ≠ "") :
    ∃ index b, s.measureIndex positions = .ok index ∧ s.measures[index]? = some b
      ∧ b.label.uniqueName = a.label.uniqueName := by
  obtain ⟨_, ha', hcases⟩ := measureAt?_cases hs.nonempty hone
  obtain rfl := Option.some.inj (ha.symm.trans ha')
  rcases hcases with ⟨hstands, hname⟩ | ⟨hfirst, hname⟩
  · have hfound : ∃ b ∈ s.measures, b.label.uniqueName = a.label.uniqueName := by
      rcases hstands with hpositions | hslicer
      · obtain ⟨position, hposition, ha⟩ := List.mem_flatMap.1 hpositions
        obtain ⟨axis, haxis, hposition⟩ := hmem position hposition
        exact hs.axes axis haxis position hposition a ha hkey
      · exact hs.slicer a hslicer hkey
    obtain ⟨index, b, hindex, hget, hb⟩ := findIdx?_measure hfound
    refine ⟨index, b, ?_, hget, hb⟩
    rw [CellSet.measureIndex, hname]
    simp only [bind, Except.bind, hindex]
  · obtain ⟨rest, hrest⟩ := List.head?_eq_some_iff.1 hfirst
    refine ⟨0, a, ?_, by rw [hrest]; rfl, rfl⟩
    rw [CellSet.measureIndex, hname]
    simp only [bind, Except.bind, hrest]
    rfl

/-- **A measure without a unique name has no index**, as all measures of the plan have one. -/
theorem Sound.measureIndex_unkeyed (hs : s.Sound)
    (hone : (positions.flatMap Position.measures).length < 2) {a : Member}
    (ha : s.measureAt? positions = some a) (hkey : a.label.uniqueName = "") :
    s.measureIndex positions = .error (.unresolvedIdentifier "") := by
  obtain ⟨_, ha', hcases⟩ := measureAt?_cases hs.nonempty hone
  obtain rfl := Option.some.inj (ha.symm.trans ha')
  rcases hcases with ⟨-, hname⟩ | ⟨hfirst, -⟩
  · have hnone : s.measures.findIdx? (fun b => b.label.uniqueName == "") = none :=
      List.findIdx?_eq_none_iff.2 fun b hb => beq_eq_false_iff_ne.2 (hs.keyed b hb)
    rw [CellSet.measureIndex, hname, hkey]
    simp only [bind, Except.bind, hnone]
  · exact absurd hkey (hs.keyed a (List.mem_of_head? hfirst))

/-- **A cell inside the grid with at most one measure on its positions** is the value that the
result has for its key and its measure, if the measure has a unique name. -/
theorem Sound.cell_eq (hs : s.Sound) {coordinates : List Nat}
    (hc : List.Forall₂ (· < ·) coordinates s.sizes)
    (hone : ((s.positionsAt coordinates).flatMap Position.measures).length < 2) {a : Member}
    (ha : s.measureAt? (s.positionsAt coordinates) = some a) (hkey : a.label.uniqueName ≠ "") :
    ∃ ordinal index b, s.measures[index]? = some b ∧ b.label.uniqueName = a.label.uniqueName
      ∧ s.cell coordinates
        = .ok ⟨ordinal, coordinates, s.cache.get? (keyOf (s.positionsAt coordinates)) index⟩ := by
  obtain ⟨ordinal, hordinal⟩ := ordinalOf_eq_ok hc
  obtain ⟨index, b, hindex, hget, hb⟩ := hs.measureIndex (fun _ => mem_positionsAt) hone ha hkey
  refine ⟨ordinal, index, b, hget, hb, ?_⟩
  exact Outcome.bind_eq_ok.2 ⟨ordinal, hordinal, Outcome.bind_eq_ok.2 ⟨index, hindex, rfl⟩⟩

/-- If the measure of a cell has no unique name, it is not found. -/
theorem Sound.cell_eq_unresolvedIdentifier (hs : s.Sound) {coordinates : List Nat}
    (hc : List.Forall₂ (· < ·) coordinates s.sizes)
    (hone : ((s.positionsAt coordinates).flatMap Position.measures).length < 2) {a : Member}
    (ha : s.measureAt? (s.positionsAt coordinates) = some a) (hkey : a.label.uniqueName = "") :
    s.cell coordinates = .error (.unresolvedIdentifier "") := by
  obtain ⟨ordinal, hordinal⟩ := ordinalOf_eq_ok hc
  rw [cell, hordinal]
  simp only [bind, Except.bind, hs.measureIndex_unkeyed hone ha hkey]

/-- Two measures on the positions of a cell are a fault. -/
theorem cell_eq_multipleMeasures {coordinates : List Nat}
    (hc : List.Forall₂ (· < ·) coordinates s.sizes)
    (htwo : 2 ≤ ((s.positionsAt coordinates).flatMap Position.measures).length) :
    ∃ names, s.cell coordinates = .error (.multipleMeasures names) := by
  obtain ⟨ordinal, hordinal⟩ := ordinalOf_eq_ok hc
  cases hmeasures : (s.positionsAt coordinates).flatMap Position.measures with
  | nil => exact absurd htwo (by simp [hmeasures])
  | cons a rest =>
    cases rest with
    | nil => exact absurd htwo (by simp [hmeasures])
    | cons b rest =>
      refine ⟨a.label.uniqueName ++ " and " ++ b.label.uniqueName, ?_⟩
      rw [cell, hordinal]
      simp only [bind, Except.bind, CellSet.measureIndex, measureName?, hmeasures]

/-- Coordinates outside the grid are a fault. -/
theorem cell_eq_indexOutOfBounds {coordinates : List Nat}
    (hc : ¬ List.Forall₂ (· < ·) coordinates s.sizes) :
    ∃ index size, s.cell coordinates = .error (.indexOutOfBounds index size) := by
  obtain ⟨index, size, hordinal⟩ := ordinalOf_eq_error hc
  refine ⟨index, size, ?_⟩
  rw [cell, hordinal]
  rfl

/-- **The outcomes of an access to a cell.** -/
theorem Sound.cell_cases (hs : s.Sound) (coordinates : List Nat) :
    (¬ List.Forall₂ (· < ·) coordinates s.sizes
        ∧ ∃ index size, s.cell coordinates = .error (.indexOutOfBounds index size))
      ∨ (List.Forall₂ (· < ·) coordinates s.sizes
        ∧ 2 ≤ ((s.positionsAt coordinates).flatMap Position.measures).length
        ∧ ∃ names, s.cell coordinates = .error (.multipleMeasures names))
      ∨ (List.Forall₂ (· < ·) coordinates s.sizes
        ∧ ((s.positionsAt coordinates).flatMap Position.measures).length < 2
        ∧ ∃ a ∈ s.measureAt? (s.positionsAt coordinates),
          (a.label.uniqueName ≠ "" ∧ ∃ cell, s.cell coordinates = .ok cell)
            ∨ a.label.uniqueName = ""
              ∧ s.cell coordinates = .error (.unresolvedIdentifier "")) := by
  by_cases hc : List.Forall₂ (· < ·) coordinates s.sizes
  · right
    by_cases hone : ((s.positionsAt coordinates).flatMap Position.measures).length < 2
    · right
      obtain ⟨a, ha, -⟩ := measureAt?_cases hs.nonempty hone
      refine ⟨hc, hone, a, ha, ?_⟩
      by_cases hkey : a.label.uniqueName = ""
      · right
        exact ⟨hkey, hs.cell_eq_unresolvedIdentifier hc hone ha hkey⟩
      · left
        obtain ⟨ordinal, index, b, -, -, hcell⟩ := hs.cell_eq hc hone ha hkey
        exact ⟨hkey, _, hcell⟩
    · left
      have htwo : 2 ≤ ((s.positionsAt coordinates).flatMap Position.measures).length :=
        Nat.not_lt.1 hone
      exact ⟨hc, htwo, cell_eq_multipleMeasures hc htwo⟩
  · left
    exact ⟨hc, cell_eq_indexOutOfBounds hc⟩

end CellSet

/-! ### Evaluated axes -/

/-- Whether an axis is described by a value. -/
def Axis.Evaluated (axis : Axis) : Prop := ∃ ordinal v, Value.toAxis ordinal v = .ok axis

theorem Axis.evaluated_empty (ordinal : AxisOrdinal) : (Axis.empty ordinal).Evaluated :=
  ⟨ordinal, .set [], rfl⟩

/-- Nothing is asked of the collections or of the result. -/
theorem Session.ensures_any {σ α : Type} (x : Session σ α) :
    Session.Ensures (fun _ => True) x fun _ => True :=
  fun _ _ _ => ⟨trivial, fun _ _ => trivial⟩

section

variable {σ : Type}

/-- **The axes of a query are described by values**, whatever a store lists. -/
theorem Provider.evaluated_of_evaluateQuery (p : Provider (Session σ)) (s : Select Expr) :
    Session.Ensures (fun _ => True) (p.evaluateQuery s) fun query =>
      (∀ axis ∈ query.slicer, axis.Evaluated) ∧ ∀ axis ∈ query.axes, axis.Evaluated := by
  have haxis : ∀ ordinal e c, Session.Ensures (fun _ => True) (p.evaluateAxis ordinal e c)
      Axis.Evaluated := by
    intro ordinal e c
    refine Session.ensures_bind (Session.ensures_any _) fun v _ => ?_
    refine (Session.assurance σ _).mono
      (Simulation.lift (S := (Session.assurance σ fun _ => True).simulation) _) ?_
    exact fun axis h => ⟨ordinal, v, h⟩
  have haxes : ∀ (c : Context) (specs : List (AxisSpec Expr)) (n : Nat),
      Session.Ensures (fun _ => True) (p.evaluateAxes c n specs) fun axes =>
        ∀ axis ∈ axes, axis.Evaluated := by
    intro c specs
    induction specs with
    | nil => exact fun n => Session.ensures_pure fun _ h => absurd h List.not_mem_nil
    | cons a specs ih =>
      intro n
      unfold Provider.evaluateAxes
      split
      · refine Session.ensures_bind (haxis _ _ _) fun axis haxis => ?_
        refine Session.ensures_bind (ih _) fun axes haxes => ?_
        exact Session.ensures_pure (List.forall_mem_cons.2 ⟨haxis, haxes⟩)
      · exact Session.ensures_throw
  have hslicer : ∀ c : Context, Session.Ensures (fun _ => True)
      (s.slicer.mapM fun e => p.evaluateAxis .slicer e c)
        fun slicer => ∀ axis ∈ slicer, axis.Evaluated := by
    intro c
    refine (Session.assurance σ fun _ => True).simulation.optionMapM
      (g := fun e => p.evaluateAxis .slicer e c)
      (fun _ h => absurd h (Option.not_mem_none _)) fun e _ => ?_
    refine (Session.assurance σ _).mono (haxis .slicer e c) ?_
    rintro axis haxis _ ⟨⟩
    exact haxis
  unfold Provider.evaluateQuery
  refine Session.ensures_bind (Session.ensures_any _) fun cube _ => ?_
  refine Session.ensures_bind (Session.ensures_any _) fun c _ => ?_
  refine Session.ensures_bind (hslicer c) fun slicer hslicer => ?_
  split
  · exact Session.ensures_bind (P := fun _ => False) Session.ensures_throw fun _ h => h.elim
  · refine Session.ensures_bind (haxes _ _ _) fun axes haxes => ?_
    exact Session.ensures_pure ⟨hslicer, haxes⟩

/-- The axes of an executed statement are described by values. -/
theorem Store.evaluated_of_execute (s : Store σ) (statement : Select Expr) :
    Session.Ensures (fun _ => True) (s.execute statement) fun cells =>
      cells.slicer.Evaluated ∧ ∀ axis ∈ cells.axes, axis.Evaluated := by
  have hplanned : Session.Ensures (fun _ => True) (s.planned statement) fun planned =>
      (∀ axis ∈ planned.1.slicer, axis.Evaluated) ∧ ∀ axis ∈ planned.1.axes, axis.Evaluated := by
    refine Session.ensures_bind (s.provider.evaluated_of_evaluateQuery statement) fun query h => ?_
    exact Session.ensures_bind (Session.ensures_any _) fun plan _ => Session.ensures_pure h
  refine Session.ensures_bind hplanned fun planned hevaluated => ?_
  refine Session.ensures_bind (Session.ensures_any _) fun result _ => ?_
  refine (Session.assurance σ _).mono Session.ensures_mk fun cells hcells => ?_
  obtain ⟨-, haxes, hslicer, -⟩ := CellSet.fields_of_ofResult hcells
  rw [haxes, hslicer]
  refine ⟨?_, hevaluated.2⟩
  cases hempty : planned.1.slicer with
  | none => exact Axis.evaluated_empty .slicer
  | some axis => exact hevaluated.1 axis hempty

end

/-! ### Results of statements -/

/-- What is read back from the row of a projected measure: the same measure under its unique name,
or under its quoted name if it stands in the statement without a unique name. -/
structure Select.ReadsBack (s : Select Expr) (a b : Member) : Prop where
  same : SameMeasure a b
  keyed : b.label.uniqueName ≠ ""
  unkeyed : a.label.uniqueName = "" →
    s.Unkeyed a ∧ b.label.uniqueName = quoteSegment a.label.name

/-- The unique name of what is read back is the one in the row, if there is one. -/
theorem Select.ReadsBack.text?_measureRowOf {s : Select Expr} {a b : Member}
    (h : s.ReadsBack a b) :
    (measureRowOf a).text? Column.measureUniqueName = some b.label.uniqueName
      ∨ (measureRowOf a).text? Column.measureUniqueName = none ∧ ∃ a', s.Unkeyed a'
        ∧ (measureRowOf a).text? Column.measureName = some a'.label.name
        ∧ b.label.uniqueName = quoteSegment a'.label.name := by
  have hunique :
      (measureRowOf a).text? Column.measureUniqueName = presence a.label.uniqueName := rfl
  have hname : (measureRowOf a).text? Column.measureName = presence a.label.name := rfl
  rw [hunique, hname]
  by_cases hu : a.label.uniqueName = ""
  · right
    obtain ⟨hunkeyed, hquoted⟩ := h.unkeyed hu
    rw [hu]
    exact ⟨rfl, a, hunkeyed, presence_of_ne hunkeyed.name, hquoted⟩
  · left
    rw [presence_of_ne hu, h.same.uniqueName hu]

section

variable {ok : Cube → SchemaObject → Prop} {statement : Select Expr} {query : Query}
  {parts : PlanParts} (hquery : query.OfStatement ok statement)
  (hparts : parts.Fit ok query.cube query.axes query.slicer)
  (hok : ∀ o, ok query.cube o → IsNamed o)

include hquery hparts

/-- Every measure on a position is projected, or another one of its unique name is. -/
theorem exists_projected {axis : Axis} (haxis : axis ∈ query.axes ++ query.slicer.toList)
    {position : Position} (hposition : position ∈ axis.positions) {a : Member}
    (ha : a ∈ position.measures) :
    ∃ b ∈ parts.measures, b.label.uniqueName = a.label.uniqueName := by
  obtain ⟨hmem, hmeasure⟩ := List.mem_filter.1 ha
  obtain ⟨b, hb, hname⟩ := exists_mem_measures (hquery.axis axis haxis)
    (List.mem_flatMap.2 ⟨position, hposition, hmem⟩) hmeasure
  exact ⟨b, hparts.mem_measures haxis hb, hname⟩

include hok

/-- A projected measure with a name, but no unique name stands in the statement. -/
theorem unkeyed_of_projected {a : Member} (ha : a ∈ parts.measures)
    (hu : a.label.uniqueName = "") (hname : a.label.name ≠ "") : statement.Unkeyed a := by
  rcases hparts.measure_cases ha with ⟨axis, haxis, ha⟩ | ha
  · obtain ⟨hmem, hmeasure⟩ := mem_membersOf_of_mem_measures (hquery.axis axis haxis) ha
    rcases hquery.keyed_or_mem hok haxis hmem with hkeyed | hobject
    · exact absurd (hkeyed hu) hname
    · exact ⟨hobject, hmeasure, hu, hname⟩
  · exact absurd (hok _ ha.1 hu) hname

/-- **Projected measures are read back** in order, with their unique names and with what they are
computed from. -/
theorem forall₂_readsBack {measures : List Member}
    (h : readMeasures (measureRowSet parts.measures) = .ok measures) :
    List.Forall₂ statement.ReadsBack parts.measures measures := by
  have hread := forall₂_readMeasures_measureRowSet h
  rw [List.forall₂_iff_get] at hread ⊢
  refine ⟨hread.1, fun i hi hi' => ?_⟩
  obtain ⟨ordinal, hb⟩ := hread.2 i hi hi'
  refine ⟨sameMeasure_of_read hb, (label_of_readMeasure hb).2.1, fun hu => ?_⟩
  obtain ⟨hname, hquoted⟩ := uniqueName_of_readMeasure hb hu
  exact ⟨unkeyed_of_projected hquery hparts hok (List.get_mem parts.measures ⟨i, hi⟩) hu hname,
    hquoted⟩

/-- All projected measures are read back with their unique names if those in the statement have
one. -/
theorem forall₂_projected (hkeyed : ∀ a, ¬ statement.Unkeyed a) {measures : List Member}
    (h : readMeasures (measureRowSet parts.measures) = .ok measures) :
    List.Forall₂ (fun a b => a.label.uniqueName ≠ "" ∧ b.label.uniqueName = a.label.uniqueName
      ∧ SameMeasure a b) parts.measures measures := by
  refine (forall₂_readsBack hquery hparts hok h).imp fun a b hab => ?_
  have hu : a.label.uniqueName ≠ "" := fun hu => hkeyed a (hab.unkeyed hu).1
  exact ⟨hu, hab.same.uniqueName hu, hab.same⟩

/-- **The cell set of a query is sound.** -/
theorem sound_ofResult {result : RowSet} {s : CellSet}
    (h : CellSet.ofResult query (parts.plan query.cube query.slicer) result = .ok s) : s.Sound := by
  obtain ⟨-, haxes, hslicer, hmeasures, -⟩ :=
    CellSet.parts_of_ofResult (PlanParts.projectedMeasures?_plan parts query.cube query.slicer) h
  have hread := forall₂_readsBack hquery hparts hok hmeasures
  have hfound : ∀ a ∈ parts.measures, a.label.uniqueName ≠ "" →
      ∃ b ∈ s.measures, b.label.uniqueName = a.label.uniqueName := by
    intro a ha hkey
    obtain ⟨b, hb, hab⟩ := exists_right_of_forall₂ hread ha
    exact ⟨b, hb, hab.same.uniqueName hkey⟩
  refine ⟨?_, ?_, ?_, ?_⟩
  · intro hnil
    rw [hnil, List.forall₂_nil_right_iff] at hread
    exact hparts.measures.1 hread
  · intro b hb
    obtain ⟨a, -, hab⟩ := exists_left_of_forall₂ hread hb
    exact hab.keyed
  · intro axis haxis position hposition a ha hkey
    rw [haxes] at haxis
    -- an axis lists its measures by name, so another one of that name may be projected
    obtain ⟨b, hb, hname⟩ :=
      exists_projected hquery hparts (List.mem_append_left _ haxis) hposition ha
    rw [← hname]
    exact hfound b hb (hname ▸ hkey)
  · intro a ha hkey
    rw [hslicer] at ha
    obtain ⟨axis, haxis, ha⟩ := Query.exists_axis_of_mem_slicer (f := Axis.measures) rfl ha
    exact hfound a (hparts.mem_measures haxis ha) hkey

/-- **If the measure of a cell has no unique name**, some measure stands in the statement that has a
name, but no unique name. -/
theorem exists_unkeyed {result : RowSet} {s : CellSet}
    (h : CellSet.ofResult query (parts.plan query.cube query.slicer) result = .ok s)
    {coordinates : List Nat}
    (hone : ((s.positionsAt coordinates).flatMap Position.measures).length < 2) {a : Member}
    (ha : s.measureAt? (s.positionsAt coordinates) = some a) (hkey : a.label.uniqueName = "") :
    ∃ b, statement.Unkeyed b := by
  have hsound := sound_ofResult hquery hparts hok h
  obtain ⟨-, haxes, hslicer, hmeasures, -⟩ :=
    CellSet.parts_of_ofResult (PlanParts.projectedMeasures?_plan parts query.cube query.slicer) h
  have hread := forall₂_readsBack hquery hparts hok hmeasures
  have hunkeyed : ∀ b ∈ parts.measures, b.label.uniqueName = "" → ∃ b, statement.Unkeyed b := by
    intro b hb hu
    obtain ⟨_, -, hab⟩ := exists_right_of_forall₂ hread hb
    exact ⟨b, (hab.unkeyed hu).1⟩
  obtain ⟨_, ha', hcases⟩ := CellSet.measureAt?_cases hsound.nonempty hone
  obtain rfl := Option.some.inj (ha.symm.trans ha')
  rcases hcases with ⟨hpositions | ha, -⟩ | ⟨hfirst, -⟩
  · obtain ⟨position, hposition, ha⟩ := List.mem_flatMap.1 hpositions
    obtain ⟨axis, haxis, hposition⟩ := mem_positionsAt hposition
    rw [haxes] at haxis
    obtain ⟨b, hb, hname⟩ :=
      exists_projected hquery hparts (List.mem_append_left _ haxis) hposition ha
    exact hunkeyed b hb (hname.trans hkey)
  · rw [hslicer] at ha
    obtain ⟨axis, haxis, ha⟩ := Query.exists_axis_of_mem_slicer (f := Axis.measures) rfl ha
    exact hunkeyed a (hparts.mem_measures haxis ha) hkey
  · exact absurd hkey (hsound.keyed a (List.mem_of_head? hfirst))

end

/-! ### A cube of sales -/

/-- Sales by place and year: two countries, one of them with two cities, and two years. -/
def sales : CubeDescription where
  name := "Sales"
  dimensions := [⟨"Geo", .other, ["Country", "City"]⟩, ⟨"Time", .time, ["Year"]⟩]
  members := [⟨"[Geo].[Country]", "AT", none⟩, ⟨"[Geo].[Country]", "DE", none⟩,
    ⟨"[Geo].[City]", "Graz", some "[Geo].[AT]"⟩, ⟨"[Geo].[City]", "Linz", some "[Geo].[AT]"⟩,
    ⟨"[Time].[Year]", "2020", none⟩, ⟨"[Time].[Year]", "2021", none⟩]
  measures := [.stored "Amount" .sum, .stored "Rate" .avg]
  facts := [⟨["[Geo].[AT].[Graz]", "[Time].[2020]"], [("Amount", 2)]⟩,
    ⟨["[Geo].[AT].[Linz]", "[Time].[2020]"], [("Amount", 3)]⟩,
    ⟨["[Geo].[AT].[Linz]", "[Time].[2021]"], [("Amount", 4)]⟩]

set_option maxRecDepth 100000 in
theorem isOk_sales : sales.build.isOk = true := by decide +kernel

/-- The cube of the sales. -/
def salesCube : MemoryCube := sales.build.get isOk_sales

theorem build_sales : sales.build = .ok salesCube := Outcome.eq_ok_get isOk_sales

/-- A new connection to an engine that serves the sales. -/
def salesConnection : Connection Unit where
  config := {}
  engine := .ofAnswers (MemoryEngine.register ⟨"LdCatalog", "LdSchema", []⟩ salesCube).answer
  state := ()

/-- The expression of the object with the given names. -/
def named (segments : List String) : Expr := .identifier ⟨segments⟩

/-- A definition of twice the amount. -/
def doubledAmount : Expr :=
  .calculatedMember ⟨["Measures", "Doubled"]⟩
    (.call "+" .binary [named ["Measures", "Amount"], named ["Measures", "Amount"]]) []

/-- A statement with measures in some of the positions of both axes. -/
def salesStatement : Select Expr where
  definitions := [doubledAmount]
  axes := [
    ⟨.index 0, false, .call "\x7b\x7d" .braces
      [.call "()" .parentheses [named ["Geo", "AT"], named ["Measures", "Doubled"]],
        named ["Geo", "DE"]]⟩,
    ⟨.index 1, false, .call "\x7b\x7d" .braces
      [.call "()" .parentheses [named ["Measures", "Rate"], named ["Time", "2020"]],
        named ["Time", "2021"]]⟩]
  source := named ["Sales"]
  slicer := none

/-- A measure with a name, but without a unique name. -/
def unkeyedAmount : Member := .stored ⟨"", "Amount", "Amount", ""⟩ (measuresLevelOf "Sales" 2) 0 .sum

/-- A statement in which this measure stands on the only axis. -/
def unkeyedStatement : Select Expr where
  definitions := []
  axes := [⟨.index 0, false, .object (.member unkeyedAmount)⟩]
  source := named ["Sales"]
  slicer := none

/-! ### Connections -/

namespace Connection

variable {σ : Type} (config : Config) (engine : Engine σ) (state : σ) (calls : List Call)

/-- **The key of every cell is laid out as in the plan.**  After any uses of a connection to any
engine, for every statement that can be evaluated and planned, and at all coordinates inside the
grid: there are as many key columns as roll-up levels and as members of the cell, each member
belongs to the level at its place, and the measures of the cell set are those that are projected, in
order and with their unique names.  Only a measure that stands in the statement with a name, but no
unique name is projected without one, and its quoted name becomes its unique name. -/
theorem key_agrees {statement : Select Expr} {query : Query} {plan : Plan}
    (h : ((Connection.after { config, engine, state } calls).run (·.planned statement)).1
      = .ok (query, plan))
    {coordinates : List Nat} (hc : List.Forall₂ (· < ·) coordinates (query.axes.map Axis.size)) :
    ∃ levels measures, plan.rollupLevels? = some levels ∧ plan.projectedMeasures? = some measures
      ∧ CellSet.keyWidth query.axes = levels.size
      ∧ (dimensionMembersAt query.axes coordinates).length = levels.size
      ∧ (dimensionMembersAt query.axes coordinates).map Member.level
        = levels.texts Column.levelUniqueName
      ∧ ∀ result s, CellSet.ofResult query plan result = .ok s →
        s.measures.length = measures.size
          ∧ List.Forall₂ (fun row b => row.text? Column.measureUniqueName = some b.label.uniqueName
              ∨ row.text? Column.measureUniqueName = none ∧ ∃ a, statement.Unkeyed a
                ∧ row.text? Column.measureName = some a.label.name
                ∧ b.label.uniqueName = quoteSegment a.label.name) measures.tuples s.measures := by
  set c := Connection.after { config, engine, state } calls with hc'
  -- whatever was kept during the earlier uses was read from rows
  have hlists : c.engine.Lists fun _ => IsNamed := c.engine.lists_named
  have honly : c.shelves.Only fun _ => IsNamed :=
    only_after (Engine.lists_named _) Shelves.only_empty calls
  obtain ⟨hquery, parts, hparts, rfl⟩ :=
    (ensures_run (Store.ensures_planned hlists statement) honly).2 _ h
  have hlevels := hparts.levels_at hc
  refine ⟨rowSetOf parts.levels, measureRowSet parts.measures,
    PlanParts.rollupLevels?_plan _ _ _, PlanParts.projectedMeasures?_plan _ _ _, ?_, ?_, ?_, ?_⟩
  · exact hparts.sum_dimensionality.trans (List.length_map _).symm
  · have hlength := congrArg List.length hlevels
    rw [List.length_map, List.length_map] at hlength
    exact hlength.trans (List.length_map _).symm
  · rw [hlevels, texts_rowSetOf_levels]
  · intro result s hs
    obtain ⟨-, -, -, hmeasures, -⟩ := CellSet.parts_of_ofResult rfl hs
    have hread := forall₂_readsBack hquery hparts Store.isNamed_of_listed hmeasures
    refine ⟨hread.length_eq.symm.trans (List.length_map _).symm, ?_⟩
    rw [tuples_measureRowSet, List.forall₂_map_left_iff]
    exact hread.imp fun a b hab => hab.text?_measureRowOf

set_option maxRecDepth 100000 in
/-- The key of the sales of Germany in 2020, which has two columns.  No measure stands in the
statement itself, so all measures have the unique names of their rows. -/
theorem key_agrees_sales :
    ∃ query plan, ((salesConnection.after [.execute salesStatement]).run
        (·.planned salesStatement)).1 = .ok (query, plan)
      ∧ List.Forall₂ (· < ·) [1, 0] (query.axes.map Axis.size)
      ∧ CellSet.keyWidth query.axes = 2
      ∧ ∃ levels measures, plan.rollupLevels? = some levels
        ∧ plan.projectedMeasures? = some measures
        ∧ CellSet.keyWidth query.axes = levels.size
        ∧ (dimensionMembersAt query.axes [1, 0]).length = levels.size
        ∧ (dimensionMembersAt query.axes [1, 0]).map Member.level
          = levels.texts Column.levelUniqueName
        ∧ ∀ result s, CellSet.ofResult query plan result = .ok s →
          s.measures.length = measures.size
            ∧ List.Forall₂ (fun row b =>
                row.text? Column.measureUniqueName = some b.label.uniqueName)
              measures.tuples s.measures := by
  obtain ⟨⟨query, plan⟩, hplanned, hcoordinates, hwidth⟩ := Outcome.exists_of_map_decide
    (x := ((salesConnection.after [.execute salesStatement]).run (·.planned salesStatement)).1)
    (P := fun planned => List.Forall₂ (· < ·) [1, 0] (planned.1.axes.map Axis.size)
      ∧ CellSet.keyWidth planned.1.axes = 2) (by decide +kernel)
  obtain ⟨levels, measures, hlevels, hmeasures, hsize, hlength, hmembers, hread⟩ :=
    key_agrees _ _ _ _ hplanned hcoordinates
  refine ⟨query, plan, hplanned, hcoordinates, hwidth, levels, measures, hlevels, hmeasures, hsize,
    hlength, hmembers, fun result s hs => ?_⟩
  obtain ⟨hcount, hnames⟩ := hread result s hs
  exact ⟨hcount, hnames.imp fun _ _ h => h.resolve_right fun ⟨_, _, ha, _⟩ =>
    List.not_mem_nil ha.mem⟩

set_option maxRecDepth 100000 in
/-- **A measure may be projected without its unique name.**  A measure that stands in the statement
has a name, but no unique name.  The statement is evaluated, planned and executed, and its cell set
has another unique name for the measure than the plan. -/
theorem not_key_agrees :
    ∃ query plan result s, (salesConnection.run (·.planned unkeyedStatement)).1 = .ok (query, plan)
      ∧ CellSet.ofResult query plan result = .ok s
      ∧ plan.projectedMeasures?.map (·.texts Column.measureUniqueName) = some [""]
      ∧ s.measures.map (fun a => a.label.uniqueName) = ["[Amount]"] := by
  let serve := (MemoryEngine.register ⟨"LdCatalog", "LdSchema", []⟩ salesCube).answer
  have h : ((salesConnection.run (·.planned unkeyedStatement)).1 >>= fun planned =>
      serve (.execute planned.2) >>= fun result =>
        (fun s : CellSet => decide
          (planned.2.projectedMeasures?.map (·.texts Column.measureUniqueName) = some [""]
            ∧ s.measures.map (fun a => a.label.uniqueName) = ["[Amount]"]))
          <$> CellSet.ofResult planned.1 planned.2 result) = .ok true := by
    decide +kernel
  obtain ⟨⟨query, plan⟩, hplanned, h⟩ := Outcome.bind_eq_ok.1 h
  obtain ⟨result, -, h⟩ := Outcome.bind_eq_ok.1 h
  obtain ⟨s, hs, hnames⟩ := Outcome.exists_of_map_decide h
  exact ⟨query, plan, result, s, hplanned, hs, hnames⟩

/-- **The access to a cell is total.**  After any uses of a connection to any engine, for every
statement that can be executed, and for all coordinates: the access fails for coordinates outside
the grid, it fails for two or more measures on the positions, and otherwise there is a cell, unless
the measure of the cell has no unique name.  Then the access fails for the empty identifier, and a
measure with a name, but no unique name stands in the statement. -/
theorem cell_total {statement : Select Expr} {s : CellSet}
    (h : ((Connection.after { config, engine, state } calls).run (·.execute statement)).1 = .ok s)
    (coordinates : List Nat) :
    ((∃ index size, s.cell coordinates = .error (.indexOutOfBounds index size))
        ↔ ¬ List.Forall₂ (· < ·) coordinates s.sizes)
      ∧ (List.Forall₂ (· < ·) coordinates s.sizes →
        ((∃ names, s.cell coordinates = .error (.multipleMeasures names))
          ↔ 2 ≤ ((s.positionsAt coordinates).flatMap Position.measures).length)
        ∧ (((s.positionsAt coordinates).flatMap Position.measures).length < 2 →
          ∃ a ∈ s.measureAt? (s.positionsAt coordinates),
            ((∃ cell, s.cell coordinates = .ok cell) ↔ a.label.uniqueName ≠ "")
            ∧ (s.cell coordinates = .error (.unresolvedIdentifier "")
              ↔ a.label.uniqueName = "")))
      ∧ (∀ identifier, s.cell coordinates = .error (.unresolvedIdentifier identifier) →
        identifier = "" ∧ ∃ a, statement.Unkeyed a)
      ∧ ∀ cube, s.cell coordinates ≠ .error (.noMeasureAvailable cube) := by
  set c := Connection.after { config, engine, state } calls with hc'
  have hlists : c.engine.Lists fun _ => IsNamed := c.engine.lists_named
  have honly : c.shelves.Only fun _ => IsNamed :=
    only_after (Engine.lists_named _) Shelves.only_empty calls
  obtain ⟨query, plan, rows, _, _, ⟨hquery, parts, hparts, rfl⟩, -, hresult⟩ :=
    (ensures_run (Store.ensures_execute hlists statement) honly).2 _ h
  have hsound := sound_ofResult hquery hparts Store.isNamed_of_listed hresult
  -- the outcomes exclude each other, so in each case one equation for the cell settles all parts
  rcases hsound.cell_cases coordinates with
    ⟨hc, index, size, hcell⟩ | ⟨hc, htwo, names, hcell⟩ |
      ⟨hc, hone, a, ha, ⟨hkey, cell, hcell⟩ | ⟨hkey, hcell⟩⟩
  · rw [hcell]
    refine ⟨?_, ?_, nofun, nofun⟩
    · exact iff_of_true ⟨index, size, rfl⟩ hc
    · intro hin
      exact absurd hin hc
  · rw [hcell]
    refine ⟨?_, ?_, nofun, nofun⟩
    · exact iff_of_false nofun (not_not_intro hc)
    · intro _
      refine ⟨iff_of_true ⟨names, rfl⟩ htwo, ?_⟩
      intro hone
      exact absurd htwo (Nat.not_le.2 hone)
  · rw [hcell]
    refine ⟨?_, ?_, nofun, nofun⟩
    · exact iff_of_false nofun (not_not_intro hc)
    · intro _
      refine ⟨iff_of_false nofun (Nat.not_le.2 hone), ?_⟩
      intro _
      exact ⟨a, ha, iff_of_true ⟨cell, rfl⟩ hkey, iff_of_false nofun hkey⟩
  · rw [hcell]
    refine ⟨?_, ?_, ?_, nofun⟩
    · exact iff_of_false nofun (not_not_intro hc)
    · intro _
      refine ⟨iff_of_false nofun (Nat.not_le.2 hone), ?_⟩
      intro _
      exact ⟨a, ha, iff_of_false nofun (not_not_intro hkey), iff_of_true rfl hkey⟩
    · rintro _ ⟨⟩
      exact ⟨rfl, exists_unkeyed hquery hparts Store.isNamed_of_listed hresult hone ha hkey⟩

set_option maxRecDepth 100000 in
theorem isOk_execute_sales : ((salesConnection.after [.cubes, .execute salesStatement]).run
    (·.execute salesStatement)).1.isOk = true := by
  decide +kernel

/-- The cells of the statement about sales. -/
def salesCells : CellSet := Outcome.get _ isOk_execute_sales

set_option maxRecDepth 100000 in
/-- A cell, two measures at once, and coordinates outside the grid. -/
theorem cell_total_sales :
    ((salesConnection.after [.cubes, .execute salesStatement]).run (·.execute salesStatement)).1
        = .ok salesCells
      ∧ (∃ cell, salesCells.cell [0, 1] = .ok cell)
      ∧ (∃ names, salesCells.cell [0, 0] = .error (.multipleMeasures names))
      ∧ ∃ index size, salesCells.cell [2, 0] = .error (.indexOutOfBounds index size) := by
  have hexecute : ((salesConnection.after [.cubes, .execute salesStatement]).run
      (·.execute salesStatement)).1 = .ok salesCells := Outcome.eq_ok_get isOk_execute_sales
  have htotal := cell_total _ _ _ _ hexecute
  obtain ⟨hone, hone', hkey, htwo, htwo', hout⟩ :
      List.Forall₂ (· < ·) [0, 1] salesCells.sizes
        ∧ ((salesCells.positionsAt [0, 1]).flatMap Position.measures).length < 2
        ∧ (∀ a ∈ salesCells.measureAt? (salesCells.positionsAt [0, 1]), a.label.uniqueName ≠ "")
        ∧ List.Forall₂ (· < ·) [0, 0] salesCells.sizes
        ∧ 2 ≤ ((salesCells.positionsAt [0, 0]).flatMap Position.measures).length
        ∧ ¬ List.Forall₂ (· < ·) [2, 0] salesCells.sizes := by
    decide +kernel
  obtain ⟨a, ha, hcell, -⟩ := ((htotal [0, 1]).2.1 hone).2 hone'
  exact ⟨hexecute, hcell.2 (hkey a ha), ((htotal [0, 0]).2.1 htwo).1.2 htwo',
    (htotal [2, 0]).1.2 hout⟩

set_option maxRecDepth 100000 in
/-- **A cell may have no measure that is found.**  A measure that stands in the statement has a
name, but no unique name.  The statement is executed, and the access to its only cell fails. -/
theorem not_cell_total :
    ∃ s, (salesConnection.run (·.execute unkeyedStatement)).1 = .ok s
      ∧ List.Forall₂ (· < ·) [0] s.sizes
      ∧ ((s.positionsAt [0]).flatMap Position.measures).length < 2
      ∧ s.cell [0] = .error (.unresolvedIdentifier "") :=
  Outcome.exists_of_map_decide (by decide +kernel)

end Connection

end Datacube
