import Datacube.Proofs.Listings

/-!
# The cubes that requests select

An engine in memory lists its cubes, and it lists the dimensions, hierarchies, levels, members and
measures of its cubes.  All these requests may be restricted to cubes of a name, and then they
select the cubes that answer to it, by their name or by their unique name.  The rows of objects
inside cubes are compared with the restriction once more, and they have the name of their cube only.
So a cube that is selected by its unique name is listed, while nothing inside it is.

## Main definitions

* `Restrictions.Outer` — whether nothing inside a cube is restricted.
* `Restrictions.spells` — whether a restriction to a cube is the name of that cube.
* `MemoryCube.Titled` — the names by which restrictions know a cube and what is inside it.
* `MemoryEngine.listedCubes` — the cubes whose rows are listed.
* `MemoryEngine.ListsObjects` — whether the listed objects are those of given cubes, cube by cube.

## Main results

* `Restrictions.Outer.admits_eq` — restrictions outside a cube compare a row by the name of its cube.
* `CubeDescription.titled` — **objects have the name of the cube** that is built of them.
* `MemoryEngine.listedCubes_eq` — **the cubes that are listed** are those that are selected.
* `MemoryEngine.listsObjects_filter` — the objects of cubes that the restriction spells.
* `MemoryEngine.lists_spelled_cubes` — **the objects that are listed** are those of the listed cubes
  whose name is the restriction.
-/

namespace Datacube

/-! ### Restrictions outside cubes -/

namespace Restrictions

/-- Whether nothing inside a cube is restricted, but at most the database, the catalog, the schema
and the cube itself. -/
structure Outer (r : Restrictions) : Prop where
  dimension : r.dimension = none
  hierarchy : r.hierarchy = none
  level : r.level = none
  member : r.member = none

/-- Whether the restriction to a cube, if there is one, is the name of the given cube. -/
def spells (r : Restrictions) (c : MemoryCube) : Bool :=
  MemoryEngine.satisfies r.cube (c.cube.label.name == ·)

variable {r : Restrictions}

theorem spells_iff {c : MemoryCube} : r.spells c = true ↔ ∀ n ∈ r.cube, n = c.cube.label.name := by
  rw [spells]
  cases r.cube with
  | none => exact iff_of_true rfl nofun
  | some name =>
    constructor
    · rintro h _ ⟨⟩
      exact (eq_of_beq h).symm
    · intro h
      exact beq_iff_eq.2 (h name rfl).symm

/-- **Restrictions outside a cube** compare a row from inside it by the name of the cube. -/
theorem Outer.admits_eq (hr : r.Outer) {row : Row} {name : String}
    (hdatabase : row.get? Column.dataSourceName = none)
    (hcatalog : row.get? Column.catalogName = none) (hschema : row.get? Column.schemaName = none)
    (hcube : row.get? Column.cubeName = some (.simple name)) :
    r.admits row = MemoryEngine.satisfies r.cube (name == ·) := by
  rw [admits, pairs, List.all_filterMap, hr.dimension, hr.hierarchy, hr.level, hr.member]
  -- each restriction is there or not, and only the last one is about a column of the row
  cases r.database <;> cases r.catalog <;> cases r.schema <;> cases r.cube <;>
    simp [hdatabase, hcatalog, hschema, hcube, MemoryEngine.satisfies]

end Restrictions

/-! ### Names of cubes and of what is inside them -/

/-- Cubes with the same row have the same names. -/
theorem Cube.names_of_write {a b : Cube} (h : Record.write a = Record.write b) :
    a.catalogName = b.catalogName ∧ a.schemaName = b.schemaName
      ∧ a.label.name = b.label.name := by
  obtain ⟨hcatalog, h⟩ := List.cons.inj h
  obtain ⟨hschema, h⟩ := List.cons.inj h
  obtain ⟨hname, -⟩ := List.cons.inj h
  exact ⟨Term.simple.inj hcatalog, Term.simple.inj hschema, Term.simple.inj hname⟩

namespace MemoryCube

/-- Whether an object with the given cube name may be inside a cube: it is the name of the cube, and
the cube has a dimension. -/
def Owns (c : MemoryCube) (cubeName : String) : Prop :=
  cubeName = c.cube.label.name ∧ c.dimensions ≠ []

/-- The names by which restrictions know a cube and what is inside it. -/
structure Titled (c : MemoryCube) : Prop where
  uniqueName : c.cube.label.uniqueName = quoteSegment c.cube.label.name
  dimensions : ∀ a ∈ c.dimensions, c.Owns a.cubeName
  hierarchies : ∀ a ∈ c.hierarchies, c.Owns a.cubeName
  levels : ∀ a ∈ c.levels, c.Owns a.cubeName
  members : ∀ a ∈ c.members, c.Owns a.cubeName
  measures : ∀ a ∈ c.measures, c.Owns a.cubeName

variable {c : MemoryCube} {d : CubeDescription}

/-- A cube with a described dimension or a measure has a dimension. -/
theorem Filled.dimensions_ne_nil (hc : c.Filled d)
    (h : d.dimensions ≠ [] ∨ d.measures.isEmpty = false) : c.dimensions ≠ [] := by
  rw [hc.dimensions]
  intro hnil
  obtain ⟨hdimensions, hmeasures⟩ := List.append_eq_nil_iff.1 hnil
  rcases h with h | h
  · exact h (List.zipIdx_eq_nil_iff.1 (List.map_eq_nil_iff.1 hdimensions))
  · rw [CubeDescription.measuresDimensions, h] at hmeasures
    cases hmeasures

end MemoryCube

/-- A described level is in a described dimension of the cube. -/
theorem CubeDescription.of_mem_toLevels {d : CubeDescription} {l : Level} (hl : l ∈ d.toLevels) :
    l.cubeName = d.name ∧ d.dimensions ≠ [] := by
  obtain ⟨dim, hdim, _, _, -, rfl⟩ := mem_toLevels.1 hl
  exact ⟨rfl, List.ne_nil_of_mem hdim⟩

/-- **Objects have the name of the cube** that is built of them. -/
theorem CubeDescription.titled {d : CubeDescription} {c : MemoryCube} (h : d.build = .ok c) :
    c.Titled := by
  have hbuilt := built h
  have hfilled := filled h
  have hname : c.cube.label.name = d.name := by
    rw [hbuilt.cube]
    rfl
  -- what has the name of the description belongs to a dimension of its own or to the measures
  have howns : ∀ cubeName, cubeName = d.name →
      d.dimensions ≠ [] ∨ d.measures.isEmpty = false → c.Owns cubeName := by
    intro cubeName hcube hsome
    exact ⟨hcube.trans hname.symm, hfilled.dimensions_ne_nil hsome⟩
  refine ⟨?_, ?_, ?_, ?_, ?_, ?_⟩
  · rw [hbuilt.cube]
    rfl
  · intro a ha
    rw [hfilled.dimensions] at ha
    rcases mem_dimensions.1 ha with ⟨dim, ordinal, hdim, rfl⟩ | ⟨hmeasures, rfl⟩
    · exact howns _ rfl (.inl (List.ne_nil_of_mem (List.mem_of_getElem? hdim)))
    · exact howns _ rfl (.inr hmeasures)
  · intro a ha
    obtain ⟨rest, hhierarchies, hrest⟩ := hfilled.hierarchies
    rw [hhierarchies] at ha
    rcases List.mem_append.1 ha with ha | ha
    · obtain ⟨dim, hdim, rfl⟩ := List.mem_map.1 ha
      exact howns _ rfl (.inl (List.ne_nil_of_mem hdim))
    · obtain ⟨hmeasures, rfl⟩ := hrest a ha
      exact howns _ rfl (.inr hmeasures)
  · intro l hl
    obtain ⟨ls, rest, hlevels, hplaces, -, -, hrest⟩ := hfilled.levels
    rw [hlevels] at hl
    rcases List.mem_append.1 hl with hl | hl
    · have hplace : l.place ∈ d.toLevels := hplaces ▸ List.mem_map_of_mem hl
      obtain ⟨hcube, hdimensions⟩ := of_mem_toLevels hplace
      exact howns _ hcube (.inl hdimensions)
    · obtain ⟨hmeasures, rfl⟩ := hrest l hl
      exact howns _ rfl (.inr hmeasures)
  · intro a ha
    obtain ⟨l, hl, hmem⟩ := hfilled.exists_level ha
    obtain ⟨_, _, -, rfl⟩ := Level.mem_membersOf.1 hmem
    obtain ⟨hcube, hdimensions⟩ := of_mem_toLevels (mem_of_levelNamed? hl).1
    exact howns _ hcube (.inl hdimensions)
  · intro a ha
    exact howns _ (hbuilt.measures a ha).cubeName (.inr (hfilled.measures a ha).1)

namespace MemoryEngine

variable {e : MemoryEngine} {r : Restrictions}

/-! ### Cubes that are listed -/

/-- The cubes of an engine whose rows are listed under restrictions, in the order in which they were
registered. -/
def listedCubes (e : MemoryEngine) (r : Restrictions) : List MemoryCube :=
  e.cubes.filter fun c => (e.list r .cubes).rows.contains (Record.write c.cube)

/-- **The cubes that are selected**: those in the catalog and the schema whose name or unique name is
the restriction. -/
theorem selects_iff {c : MemoryCube} (hc : c.Titled) : selects r c = true ↔
    (∀ n ∈ r.catalog, n = c.cube.catalogName) ∧ (∀ n ∈ r.schema, n = c.cube.schemaName)
      ∧ ∀ n ∈ r.cube, n = c.cube.label.name ∨ n = c.cube.label.uniqueName := by
  have hsatisfies : ∀ (restriction : Option String) (test : String → Bool),
      satisfies restriction test = true ↔ ∀ n ∈ restriction, test n = true := by
    intro restriction test
    cases restriction with
    | none => exact iff_of_true rfl nofun
    | some name => exact ⟨fun h n hn => Option.some.inj hn ▸ h, fun h => h name rfl⟩
  have hnamed : ∀ n, isNamed c.cube n = true ↔ n = c.cube.label.name
      ∨ n = c.cube.label.uniqueName := by
    intro n
    rw [Cube.isNamed_iff hc.uniqueName, hc.uniqueName]
    exact or_congr eq_comm eq_comm
  simp only [selects, Bool.and_eq_true, hsatisfies, hnamed, beq_iff_eq, and_assoc]

/-- **The cubes that are listed are those that are selected**, if their unique names are their quoted
names. -/
theorem listedCubes_eq (htitled : ∀ c ∈ e.cubes, c.Titled) : e.listedCubes r = e.selected r := by
  refine List.filter_congr fun c hc => Bool.eq_iff_iff.2 ?_
  rw [List.contains_iff_mem]
  constructor
  -- a cube with the row of a selected one has the names of that cube
  · intro hrow
    obtain ⟨x, hx, hwrite⟩ := List.mem_map.1 hrow
    obtain ⟨c', hc', rfl⟩ := List.mem_map.1 hx
    obtain ⟨hmem, hselects⟩ := List.mem_filter.1 hc'
    obtain ⟨hcatalog, hschema, hname⟩ := Cube.names_of_write hwrite
    rw [selects_iff (htitled c' hmem), (htitled c' hmem).uniqueName, hcatalog, hschema, hname,
      ← (htitled c hc).uniqueName] at hselects
    exact (selects_iff (htitled c hc)).2 hselects
  · intro hselects
    exact List.mem_map_of_mem (List.mem_map_of_mem (List.mem_filter.2 ⟨hc, hselects⟩))

/-! ### Objects that are listed -/

/-- Whether the objects that are listed under restrictions are those of given cubes, cube by cube. -/
structure ListsObjects (e : MemoryEngine) (r : Restrictions) (cubes : List MemoryCube) : Prop where
  dimensions : e.answer (.list .dimensions r) = .ok (rowSetOf (cubes.flatMap MemoryCube.dimensions))
  hierarchies :
    e.answer (.list .hierarchies r) = .ok (rowSetOf (cubes.flatMap MemoryCube.hierarchies))
  levels : e.answer (.list .levels r) = .ok (rowSetOf (cubes.flatMap MemoryCube.levels))
  members : e.answer (.list .members r) = .ok (rowSetOf (cubes.flatMap MemoryCube.members))
  measures : e.answer (.list .measures r) = .ok (measureRowSet (cubes.flatMap MemoryCube.measures))

/-- The rows of the objects of some cubes, if a test keeps all rows of a cube or none. -/
private theorem filter_map_flatMap {α : Type} {f : MemoryCube → List α} {write : α → List Term}
    {columns : List String} {test : Row → Bool} {keep : MemoryCube → Bool}
    {cubes : List MemoryCube}
    (h : ∀ c ∈ cubes, ∀ a ∈ f c, test (columns.zip (write a)) = keep c) :
    ((cubes.flatMap f).map write).filter (fun row => test (columns.zip row))
      = ((cubes.filter keep).flatMap f).map write := by
  rw [List.filter_map, ← filter_flatMap_of_forall h]
  rfl

section

variable (hr : r.Outer) (htitled : ∀ c ∈ e.cubes, c.Titled)

include hr htitled

/-- **The objects that are listed** are those of the selected cubes whose name is the restriction.
It does not matter whether cubes without dimensions are counted among them. -/
theorem listsObjects_filter {keep : MemoryCube → Bool}
    (hkeep : ∀ c ∈ e.selected r, c.dimensions ≠ [] → keep c = r.spells c) :
    e.ListsObjects r ((e.selected r).filter keep) := by
  have hselected : ∀ c ∈ e.selected r, c.Titled := fun c hc => htitled c (mem_of_mem_selected hc).1
  have hspells : ∀ c ∈ e.selected r, ∀ cubeName, c.Owns cubeName →
      satisfies r.cube (cubeName == ·) = keep c := by
    rintro c hc _ ⟨rfl, hsome⟩
    exact (hkeep c hc hsome).symm
  refine ⟨?_, ?_, ?_, ?_, ?_⟩ <;>
    refine congrArg Except.ok (RowSet.ext rfl (filter_map_flatMap fun c hc a ha => ?_))
  · exact (hr.admits_eq rfl rfl rfl rfl).trans (hspells c hc _ ((hselected c hc).dimensions a ha))
  · exact (hr.admits_eq rfl rfl rfl rfl).trans (hspells c hc _ ((hselected c hc).hierarchies a ha))
  · exact (hr.admits_eq rfl rfl rfl rfl).trans (hspells c hc _ ((hselected c hc).levels a ha))
  · exact (hr.admits_eq rfl rfl rfl rfl).trans (hspells c hc _ ((hselected c hc).members a ha))
  · exact (hr.admits_eq rfl rfl rfl rfl).trans (hspells c hc _ ((hselected c hc).measures a ha))

/-- **All objects of the selected cubes are listed** if and only if those that are not selected by
their name have no dimensions, and so nothing at all. -/
theorem listsObjects_selected_iff : e.ListsObjects r (e.selected r)
    ↔ ∀ c ∈ e.selected r, c.dimensions ≠ [] → r.spells c = true := by
  constructor
  -- a row that is listed satisfies the restrictions
  · intro h c hc hsome
    obtain ⟨a, ha⟩ := List.exists_mem_of_ne_nil _ hsome
    obtain ⟨hcube, -⟩ := (htitled c (mem_of_mem_selected hc).1).dimensions a ha
    have hrow : rowOf a ∈ (e.list r .dimensions).tuples := by
      rw [Except.ok.inj h.dimensions, tuples_rowSetOf_eq_map]
      exact List.mem_map_of_mem (List.mem_flatMap.2 ⟨c, hc, ha⟩)
    rw [list, rowsOf, RowSet.tuples_filter] at hrow
    have hadmits := (List.mem_filter.1 hrow).2
    rw [hr.admits_eq rfl rfl rfl rfl, hcube] at hadmits
    exact hadmits
  · intro h
    have hall : e.ListsObjects r ((e.selected r).filter fun _ => true) :=
      listsObjects_filter hr htitled fun c hc hsome => (h c hc hsome).symm
    rwa [List.filter_true] at hall

end

/-! ### Engines over cubes that are built -/

variable {catalogName schemaName : String} {cubes : List MemoryCube}

/-- What is known of a cube that was registered. -/
theorem titled_of_mem_ofCubes (hbuilt : ∀ c ∈ cubes, ∃ d : CubeDescription, d.build = .ok c)
    {c : MemoryCube} (hc : c ∈ (ofCubes catalogName schemaName cubes).cubes) :
    c.Titled ∧ c.cube.catalogName = catalogName ∧ c.cube.schemaName = schemaName := by
  rw [cubes_ofCubes] at hc
  obtain ⟨c', hc', rfl⟩ := List.mem_map.1 hc
  obtain ⟨d, hd⟩ := hbuilt c' hc'
  have htitled := CubeDescription.titled hd
  exact ⟨⟨htitled.uniqueName, htitled.dimensions, htitled.hierarchies, htitled.levels,
    htitled.members, htitled.measures⟩, rfl, rfl⟩

variable (catalogName schemaName) in
/-- **Requests for cubes and for what is inside them.**  An engine in memory serves cubes that are
built from descriptions, and at most the database, the catalog, the schema and the cube are
restricted.  Then the cubes that are listed are those in the catalog and the schema whose name or
unique name is the restriction, in the order of their registration.  The dimensions, hierarchies,
levels, members and measures that are listed are those of the listed cubes whose name is the
restriction, cube by cube.  They are those of all listed cubes if and only if the cubes that are
listed for their unique name have no dimensions, and so nothing at all. -/
theorem lists_spelled_cubes (hbuilt : ∀ c ∈ cubes, ∃ d : CubeDescription, d.build = .ok c)
    (hr : r.Outer) :
    let e := ofCubes catalogName schemaName cubes
    e.answer (.list .cubes r) = .ok (rowSetOf ((e.listedCubes r).map MemoryCube.cube))
    ∧ (∀ c ∈ e.cubes, c ∈ e.listedCubes r ↔ (∀ n ∈ r.catalog, n = catalogName)
      ∧ (∀ n ∈ r.schema, n = schemaName)
      ∧ ∀ n ∈ r.cube, n = c.cube.label.name ∨ n = c.cube.label.uniqueName)
    ∧ e.ListsObjects r ((e.listedCubes r).filter r.spells)
    ∧ (e.ListsObjects r (e.listedCubes r) ↔
      ∀ c ∈ e.listedCubes r, ∀ n ∈ r.cube, n = c.cube.label.uniqueName → c.dimensions = []) := by
  intro e
  have htitled : ∀ c ∈ e.cubes, c.Titled := fun c hc => (titled_of_mem_ofCubes hbuilt hc).1
  have hlisted : e.listedCubes r = e.selected r := listedCubes_eq htitled
  rw [hlisted]
  refine ⟨rfl, ?_, listsObjects_filter hr htitled fun _ _ _ => rfl, ?_⟩
  · intro c hc
    obtain ⟨hnames, hcatalog, hschema⟩ := titled_of_mem_ofCubes hbuilt hc
    rw [← hcatalog, ← hschema, ← selects_iff hnames]
    exact List.mem_filter.trans (and_iff_right hc)
  · rw [listsObjects_selected_iff hr htitled]
    refine forall₂_congr fun c hc => ?_
    obtain ⟨hmem, hselects⟩ := List.mem_filter.1 hc
    have hunique := (htitled c hmem).uniqueName
    have hnames := ((selects_iff (htitled c hmem)).1 hselects).2.2
    rw [Restrictions.spells_iff]
    constructor
    -- a unique name has brackets around it, so it is not the name
    · intro h n hn hname
      refine Classical.byContradiction fun hsome => quoteSegment_ne_self c.cube.label.name ?_
      rw [← hunique, ← hname, h hsome n hn]
    · intro h hsome n hn
      exact (hnames n hn).resolve_right fun hname => hsome (h n hn hname)

/-! ### Cubes with brackets around them -/

/-- A cube whose name is the unique name of the cube of sales. -/
def bracketedSales : CubeDescription where
  name := "[Sales]"
  dimensions := [⟨"Geo", .other, ["Country"]⟩]
  members := [⟨"[Geo].[Country]", "FR", none⟩]
  measures := [.stored "Price" .avg]
  facts := []

set_option maxRecDepth 100000 in
theorem isOk_bracketedSales : bracketedSales.build.isOk = true := by decide +kernel

/-- The cube with brackets in its name. -/
def bracketedCube : MemoryCube := bracketedSales.build.get isOk_bracketedSales

set_option maxRecDepth 100000 in
/-- Two cubes answer to the name in brackets, and only what is inside the second one is listed. -/
theorem lists_spelled_cubes_bracketed :
    let e := ofCubes "LdCatalog" "LdSchema" [salesCube, bracketedCube]
    let r : Restrictions := { catalog := some "LdCatalog", cube := some "[Sales]" }
    (∀ c ∈ [salesCube, bracketedCube], ∃ d : CubeDescription, d.build = .ok c) ∧ r.Outer
    ∧ (e.listedCubes r).map (·.cube.label.name) = ["Sales", "[Sales]"]
    ∧ ((e.listedCubes r).filter r.spells).map (·.cube.label.name) = ["[Sales]"]
    ∧ e.ListsObjects r ((e.listedCubes r).filter r.spells)
    ∧ ¬ e.ListsObjects r (e.listedCubes r) := by
  intro e r
  have hbuilt : ∀ c ∈ [salesCube, bracketedCube], ∃ d : CubeDescription, d.build = .ok c :=
    List.forall_mem_cons.2 ⟨⟨sales, build_sales⟩,
      List.forall_mem_singleton.2 ⟨bracketedSales, Outcome.eq_ok_get isOk_bracketedSales⟩⟩
  have hr : r.Outer := ⟨rfl, rfl, rfl, rfl⟩
  obtain ⟨-, -, hspelled, hall⟩ := lists_spelled_cubes "LdCatalog" "LdSchema" hbuilt hr
  refine ⟨hbuilt, hr, by decide +kernel, by decide +kernel, hspelled, ?_⟩
  rw [hall]
  decide +kernel

set_option maxRecDepth 100000 in
/-- **A cube may be listed without anything that is inside it.**  The cube of sales answers to its
unique name, and it has three dimensions.  Under this restriction no rows of its objects are
listed. -/
theorem not_listsObjects_listed :
    let e := ofCubes "LdCatalog" "LdSchema" [salesCube]
    let r : Restrictions := { cube := some "[Sales]" }
    r.Outer
    ∧ (e.listedCubes r).map (fun c => (c.cube.label.name, c.dimensions.length)) = [("Sales", 3)]
    ∧ (∀ listing ∈ [Listing.dimensions, .hierarchies, .levels, .members, .measures],
      (e.list r listing).rows = [])
    ∧ ¬ e.ListsObjects r (e.listedCubes r) := by
  intro e r
  have hnone : (e.list r .dimensions).rows = [] := by decide +kernel
  have hlisted :
      (e.listedCubes r).map (fun c => (c.cube.label.name, c.dimensions.length)) = [("Sales", 3)] := by
    decide +kernel
  refine ⟨⟨rfl, rfl, rfl, rfl⟩, hlisted, by decide +kernel, fun h => ?_⟩
  rw [Except.ok.inj h.dimensions, rows_rowSetOf] at hnone
  revert hnone
  decide +kernel

end MemoryEngine

end Datacube
