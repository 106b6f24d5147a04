import Datacube.Memory.Engine
import Datacube.Proofs.CellAccess

/-!
# What engines in memory serve

An engine over cubes in memory lists the schema objects of its cubes, and it executes a plan on the
cube that has the name of the queried one.  If no other cube answers to that name, everything that
is listed for the queried cube belongs to the cube on which the plan is executed.

## Main definitions

* `MemoryCube.Serves` — whether an object is read from the rows of a cube.
* `MemoryEngine.Serves` — whether it is read from those of a cube with a given name.
* `MemoryEngine.ofCubes` — the engine over given cubes; `MemoryEngine.connection` — a connection.

## Main results

* `MemoryEngine.exists_of_mem_readAll`, `exists_mem_of_readAll` — **what is listed** is read from
  the rows of selected cubes.
* `MemoryEngine.lists` — **engines in memory list objects of their cubes**.
* `MemoryEngine.answer_execute` — **a plan is executed on the queried cube**.
* `MemoryEngine.planned_on`, `MemoryEngine.executed_on` — **statements over a cube** are made of
  what it serves.
-/

namespace Datacube

/-- Whether an object is read from the rows of a cube in memory. -/
def MemoryCube.Serves (c : MemoryCube) : SchemaObject → Prop
  | .cube x => x.label.name = c.cube.label.name ∧ ∃ row, Record.read row = .ok x
  | .level l => ∃ b ∈ c.levels, Record.read (rowOf b) = .ok l
  | .member a => (∃ b ∈ c.members, Record.read (rowOf b) = .ok a)
    ∨ ∃ b ∈ c.measures, ∃ ordinal, readMeasure (measureRowOf b) ordinal = .ok a
  | .dimension _ | .hierarchy _ => True

/-- Climbing depends on the lookup of members only. -/
theorem MemoryCube.climb_congr {c c' : MemoryCube} (h : c'.member? = c.member?) (depth fuel : Nat) :
    c'.climb depth fuel = c.climb depth fuel := by
  induction fuel with
  | zero =>
    funext m
    unfold climb
    rfl
  | succ fuel ih =>
    funext m
    unfold climb
    generalize m.parent = parent
    cases parent with
    | none => rfl
    | some name =>
      dsimp only
      rw [h, ih]

/-- The execution of a plan does not depend on the catalog and the schema of the cube. -/
theorem MemoryCube.execute_withCube (c : MemoryCube) (cube : Cube) (plan : Plan) :
    { c with cube }.execute plan = c.execute plan := by
  -- every step of the execution looks at members, measures and observations only
  have hclimb : ∀ depth fuel, { c with cube }.climb depth fuel = c.climb depth fuel :=
    climb_congr rfl
  have hancestor : { c with cube }.ancestorAt? = c.ancestorAt? := by
    funext m depth
    rw [ancestorAt?, hclimb]
    rfl
  have hself : { c with cube }.isAncestorOrSelf = c.isAncestorOrSelf := by
    funext a m
    rw [isAncestorOrSelf, hancestor]
    rfl
  have hbelow : { c with cube }.isBelow = c.isBelow := by
    funext fact tuple
    rw [isBelow, hself]
    rfl
  have hdiced : { c with cube }.isDiced = c.isDiced := by
    funext dice fact
    rw [isDiced, hbelow]
    rfl
  have hkey : { c with cube }.groupKey? = c.groupKey? := by
    funext levels fact
    simp only [groupKey?, factAncestor?, hancestor]
    rfl
  have hgroups : { c with cube }.groups = c.groups := by
    funext dice levels
    simp only [groups, keyedFacts, hdiced, hkey]
  rw [execute, hgroups]
  rfl

namespace MemoryEngine

variable {σ : Type} {e : MemoryEngine}

/-- Whether an object is read from the rows of a cube, of the given name if there is one. -/
def Serves (e : MemoryEngine) (name : Option String) (o : SchemaObject) : Prop :=
  ∃ c ∈ e.cubes, (∀ n ∈ name, isNamed c.cube n = true) ∧ c.Serves o

/-! ### Listings -/

theorem mem_of_mem_selected {r : Restrictions} {c : MemoryCube} (h : c ∈ e.selected r) :
    c ∈ e.cubes ∧ ∀ n ∈ r.cube, isNamed c.cube n = true := by
  obtain ⟨hmem, hselects⟩ := List.mem_filter.1 h
  rw [selects, Bool.and_eq_true] at hselects
  refine ⟨hmem, fun n hn => ?_⟩
  rw [Option.mem_def.1 hn] at hselects
  exact hselects.2

private theorem mem_tuples_rowsOf {α : Type} [Record α] {f : MemoryCube → List α}
    {r : Restrictions} {row : Row} : row ∈ (rowsOf r ((e.selected r).flatMap f)).tuples
      ↔ ∃ c ∈ e.selected r, ∃ b ∈ f c, r.admits (rowOf b) = true ∧ rowOf b = row := by
  rw [rowsOf, RowSet.tuples_filter, tuples_rowSetOf_eq_map, List.mem_filter, List.mem_map]
  constructor
  · rintro ⟨⟨b, hb, rfl⟩, hadmits⟩
    obtain ⟨c, hc, hbc⟩ := List.mem_flatMap.1 hb
    exact ⟨c, hc, b, hbc, hadmits, rfl⟩
  · rintro ⟨c, hc, b, hbc, hadmits, rfl⟩
    exact ⟨⟨b, List.mem_flatMap.2 ⟨c, hc, hbc⟩, rfl⟩, hadmits⟩

section

variable {α : Type} [Record α] {f : MemoryCube → List α} {r : Restrictions} {objects : List α}
  (h : readAll α (rowsOf r ((e.selected r).flatMap f)) = .ok objects)

include h

/-- **What is read from listed rows** is read from the rows of objects of selected cubes. -/
theorem exists_of_mem_readAll {a : α} (ha : a ∈ objects) : ∃ c ∈ e.selected r, ∃ b ∈ f c,
    r.admits (rowOf b) = true ∧ Record.read (rowOf b) = .ok a := by
  -- restrictions select rows, so that a listed row is still the row of some object
  obtain ⟨row, hrow, hread⟩ := exists_left_of_forall₂ (Outcome.mapM_eq_ok.1 h) ha
  obtain ⟨c, hc, b, hb, hadmits, rfl⟩ := mem_tuples_rowsOf.1 hrow
  exact ⟨c, hc, b, hb, hadmits, hread⟩

/-- **Objects of selected cubes** that satisfy the restrictions are listed. -/
theorem exists_mem_of_readAll {c : MemoryCube} (hc : c ∈ e.selected r) {b : α} (hb : b ∈ f c)
    (hadmits : r.admits (rowOf b) = true) : ∃ a ∈ objects, Record.read (rowOf b) = .ok a :=
  exists_right_of_forall₂ (Outcome.mapM_eq_ok.1 h)
    (mem_tuples_rowsOf.2 ⟨c, hc, b, hb, hadmits, rfl⟩)

/-- What is read from listed rows is read from the row of an object of a cube of the name. -/
private theorem exists_of_readAll {a : α} (ha : a ∈ objects) :
    ∃ c ∈ e.cubes, (∀ n ∈ r.cube, isNamed c.cube n = true)
      ∧ ∃ b ∈ f c, Record.read (rowOf b) = .ok a := by
  obtain ⟨c, hc, b, hb, -, hread⟩ := exists_of_mem_readAll h ha
  obtain ⟨hmem, hname⟩ := mem_of_mem_selected hc
  exact ⟨c, hmem, hname, b, hb, hread⟩

end

/-- **Engines in memory list objects of their cubes.** -/
theorem lists (e : MemoryEngine) : (Engine.ofAnswers e.answer : Engine σ).Lists e.Serves := by
  intro listing r state rows state' h objects hobjects o ho
  rw [Engine.ofAnswers_apply] at h
  obtain rfl : e.list r listing = rows := Except.ok.inj (congrArg Prod.fst h)
  cases listing with
  | databases | catalogs | schemas =>
    cases hobjects
    cases ho
  | cubes =>
    obtain ⟨xs, hxs, rfl⟩ := Outcome.map_eq_ok.1 hobjects
    obtain ⟨x, hx, rfl⟩ := List.mem_map.1 ho
    obtain ⟨y, hy, hread⟩ := exists_left_of_forall₂ (readAll_rowSetOf.1 hxs) hx
    obtain ⟨c, hc, rfl⟩ := List.mem_map.1 hy
    obtain ⟨hmem, hname⟩ := mem_of_mem_selected hc
    exact ⟨c, hmem, hname, Cube.name_of_read_rowOf hread, _, hread⟩
  | dimensions =>
    obtain ⟨ds, hds, rfl⟩ := Outcome.map_eq_ok.1 hobjects
    obtain ⟨d, hd, rfl⟩ := List.mem_map.1 ho
    obtain ⟨c, hmem, hname, -⟩ := exists_of_readAll hds hd
    exact ⟨c, hmem, hname, trivial⟩
  | hierarchies =>
    obtain ⟨hs, hhs, rfl⟩ := Outcome.map_eq_ok.1 hobjects
    obtain ⟨a, ha, rfl⟩ := List.mem_map.1 ho
    obtain ⟨c, hmem, hname, -⟩ := exists_of_readAll hhs ha
    exact ⟨c, hmem, hname, trivial⟩
  | levels =>
    obtain ⟨ls, hls, rfl⟩ := Outcome.map_eq_ok.1 hobjects
    obtain ⟨l, hl, rfl⟩ := List.mem_map.1 ho
    exact exists_of_readAll hls hl
  | members =>
    obtain ⟨ms, hms, rfl⟩ := Outcome.map_eq_ok.1 hobjects
    obtain ⟨a, ha, rfl⟩ := List.mem_map.1 ho
    obtain ⟨c, hmem, hname, hb⟩ := exists_of_readAll hms ha
    exact ⟨c, hmem, hname, .inl hb⟩
  | measures =>
    obtain ⟨ms, hms, rfl⟩ := Outcome.map_eq_ok.1 hobjects
    obtain ⟨a, ha, rfl⟩ := List.mem_map.1 ho
    obtain ⟨row, hrow, hread⟩ := exists_left_of_forall₂ (forall₂_readMeasures hms) ha
    rw [list, RowSet.tuples_filter, tuples_measureRowSet] at hrow
    obtain ⟨b, hb, rfl⟩ := List.mem_map.1 (List.mem_filter.1 hrow).1
    obtain ⟨c, hc, hbc⟩ := List.mem_flatMap.1 hb
    obtain ⟨hmem, hname⟩ := mem_of_mem_selected hc
    exact ⟨c, hmem, hname, .inr ⟨b, hbc, hread⟩⟩

/-! ### Engines over given cubes -/

/-- The engine over given cubes, all of them in one schema of one catalog. -/
def ofCubes (catalogName schemaName : String) (cubes : List MemoryCube) : MemoryEngine :=
  cubes.foldl register ⟨catalogName, schemaName, []⟩

variable {catalogName schemaName : String} {cubes : List MemoryCube} {c : MemoryCube}

/-- A new connection to an engine. -/
def connection (e : MemoryEngine) (config : Config) : Connection Unit where
  config
  engine := .ofAnswers e.answer
  state := ()

/-- Uses of a connection do not change its engine. -/
theorem engine_connection (e : MemoryEngine) (config : Config) (calls : List Call) :
    ((e.connection config).after calls).store.engine = .ofAnswers e.answer :=
  Connection.engine_after _ _

theorem lists_connection (e : MemoryEngine) (config : Config) (calls : List Call) :
    ((e.connection config).after calls).store.engine.Lists e.Serves := by
  rw [engine_connection]
  exact e.lists

theorem cubes_ofCubes : (ofCubes catalogName schemaName cubes).cubes
    = cubes.map fun c => { c with cube := { c.cube with catalogName, schemaName } } := by
  have hfold : ∀ e : MemoryEngine, e.catalogName = catalogName → e.schemaName = schemaName →
      (cubes.foldl register e).cubes = e.cubes
        ++ cubes.map fun c => { c with cube := { c.cube with catalogName, schemaName } } := by
    induction cubes with
    | nil => exact fun e _ _ => (List.append_nil _).symm
    | cons c cubes ih =>
      rintro e rfl rfl
      rw [List.foldl_cons, ih (e.register c) rfl rfl, List.map_cons, List.append_cons]
      rfl
  exact hfold _ rfl rfl

section

variable (honly : ∀ c' ∈ cubes, isNamed c'.cube c.cube.label.name = true → c' = c)

include honly

/-- The only cube of an engine that answers to the name, if no other one does. -/
theorem eq_of_mem_ofCubes {c' : MemoryCube} (h : c' ∈ (ofCubes catalogName schemaName cubes).cubes)
    (hname : isNamed c'.cube c.cube.label.name = true) :
    c' = { c with cube := { c.cube with catalogName, schemaName } } := by
  rw [cubes_ofCubes] at h
  obtain ⟨c'', hc'', rfl⟩ := List.mem_map.1 h
  rw [honly c'' hc'' hname]

/-- What is listed for a cube is served by that cube if no other one answers to its name. -/
theorem serves_of_only {o : SchemaObject}
    (h : (ofCubes catalogName schemaName cubes).Serves (some c.cube.label.name) o) :
    c.Serves o := by
  obtain ⟨c', hc', hname, hserves⟩ := h
  obtain rfl := eq_of_mem_ofCubes honly hc' (hname _ rfl)
  cases o <;> exact hserves

/-- **A plan is executed on the queried cube.** -/
theorem answer_execute (hc : c ∈ cubes) {cube : Cube} {row : Row}
    (hcube : Record.read row = .ok cube) (hname : cube.label.name = c.cube.label.name)
    {plan : Plan} (hplan : plan.cube = rowSetOf [cube]) :
    (ofCubes catalogName schemaName cubes).answer (.execute plan) = c.execute plan := by
  have hread : readAll Cube plan.cube = .ok [cube] := by
    rw [hplan]
    exact readAll_rowSetOf.2 (.cons (Cube.read_rowOf hcube) .nil)
  have hself : isNamed c.cube c.cube.label.name = true := by
    simp [isNamed, label, Labelled.label]
  have hfind : (ofCubes catalogName schemaName cubes).cubes.find?
      (fun c => isNamed c.cube cube.label.name)
        = some { c with cube := { c.cube with catalogName, schemaName } } := by
    have hmem : { c with cube := { c.cube with catalogName, schemaName } }
        ∈ (ofCubes catalogName schemaName cubes).cubes := by
      rw [cubes_ofCubes]
      exact List.mem_map_of_mem hc
    rw [hname]
    cases h : (ofCubes catalogName schemaName cubes).cubes.find?
        fun c' : MemoryCube => isNamed c'.cube c.cube.label.name with
    | none => exact (List.find?_eq_none.1 h _ hmem hself).elim
    -- whichever cube is found first has the name, and only one cube has
    | some c' =>
      have hnamed := List.find?_some (p := fun c' : MemoryCube =>
        isNamed c'.cube c.cube.label.name) h
      rw [eq_of_mem_ofCubes honly (List.mem_of_find?_eq_some h) hnamed]
  rw [answer, planCube, hread]
  simp only [bind, Except.bind, hfind]
  exact c.execute_withCube _ plan

/-- A plan that is executed is executed on the queried cube. -/
theorem execute_of_answer {cube : Cube} (hname : cube.label.name = c.cube.label.name) {plan : Plan}
    (hplan : plan.cube = rowSetOf [cube]) {rows : RowSet}
    (h : (ofCubes catalogName schemaName cubes).answer (.execute plan) = .ok rows) :
    c.execute plan = .ok rows := by
  obtain ⟨c', hc', hrows⟩ := Outcome.bind_eq_ok.1 h
  obtain ⟨xs, hxs, hfound⟩ := Outcome.bind_eq_ok.1 hc'
  rw [hplan] at hxs
  cases readAll_rowSetOf.1 hxs with
  | @cons _ x _ _ hread _ =>
    have hxname := (Cube.name_of_read_rowOf hread).trans hname
    dsimp only at hfound
    split at hfound
    · rename_i c₀ hfind
      cases hfound
      have hnamed := List.find?_some (p := fun c' : MemoryCube =>
        isNamed c'.cube x.label.name) hfind
      rw [hxname] at hnamed
      obtain rfl := eq_of_mem_ofCubes honly (List.mem_of_find?_eq_some hfind) hnamed
      rwa [MemoryCube.execute_withCube] at hrows
    · cases hfound

/-- What is known of a query over a cube, in terms of that cube. -/
private theorem served {query : Query} (hname : query.cube.label.name = c.cube.label.name)
    {o : SchemaObject} (ho : ∀ x, o ≠ .cube x)
    (h : Store.Listed (ofCubes catalogName schemaName cubes).Serves query.cube o) : c.Serves o := by
  have hlisted : (ofCubes catalogName schemaName cubes).Serves (some query.cube.label.name) o := by
    cases o with
    | cube x => exact absurd rfl (ho x)
    | _ => exact h
  exact serves_of_only honly (hname ▸ hlisted)

/-- **What is evaluated over a cube** is made of objects that the cube serves. -/
theorem ofStatement_of_only {query : Query} (hname : query.cube.label.name = c.cube.label.name)
    {statement : Select Expr}
    (h : query.OfStatement (Store.Listed (ofCubes catalogName schemaName cubes).Serves) statement) :
    query.OfStatement (fun _ => c.Serves) statement := by
  have hknown : ∀ a, statement.Knows (Store.Listed (ofCubes catalogName schemaName cubes).Serves)
      query.cube (.member a) → statement.Knows (fun _ => c.Serves) query.cube (.member a) := by
    intro a ha
    exact ha.imp_left (served honly hname nofun)
  refine ⟨h.cube.imp_left ?_, h.calculated.mono hknown, h.axis, ?_⟩
  · rintro ⟨c', -, -, -, hrow⟩
    exact ⟨hname, hrow⟩
  · intro axis haxis a ha
    exact (h.member axis haxis a ha).imp_left (hknown a)

/-- **The plan of a query over a cube** is made of objects that the cube serves. -/
theorem fit_of_only {query : Query} (hname : query.cube.label.name = c.cube.label.name)
    {parts : PlanParts}
    (h : parts.Fit (Store.Listed (ofCubes catalogName schemaName cubes).Serves) query.cube
      query.axes query.slicer) :
    parts.Fit (fun _ => c.Serves) query.cube query.axes query.slicer := by
  obtain ⟨hne, hmeasures⟩ := h.measures
  refine ⟨⟨hne, hmeasures.imp_right ?_⟩, h.rollup, ?_⟩
  · rintro ⟨hnone, hlisted⟩
    refine ⟨hnone, ?_⟩
    intro a ha
    obtain ⟨hserves, hmeasure⟩ := hlisted a ha
    exact ⟨served honly hname nofun hserves, hmeasure⟩
  · intro l hl
    exact served honly hname nofun (h.listed l hl)

variable (hc : c ∈ cubes) {statement : Select Expr} (hobjects : ∀ o ∈ statement.objects, c.Serves o)

include hc hobjects

/-- The queried cube is the one on which its plan is executed. -/
private theorem answer_execute_of_query {query : Query}
    (hname : query.cube.label.name = c.cube.label.name)
    (h : query.OfStatement (fun _ => c.Serves) statement) (parts : PlanParts) :
    (ofCubes catalogName schemaName cubes).answer
      (.execute (parts.plan query.cube query.slicer))
        = c.execute (parts.plan query.cube query.slicer) := by
  obtain ⟨-, row, hrow⟩ := h.cube.elim id (hobjects _)
  exact answer_execute honly hc hrow hname rfl

variable {config : Config} {calls : List Call}

/-- **A statement over a cube that is planned**, after any uses of a connection: it is made of what
the cube serves, and its plan is executed on the cube. -/
theorem planned_on {query : Query} {plan : Plan}
    (h : ((((ofCubes catalogName schemaName cubes).connection config).after calls).run
      (·.planned statement)).1 = .ok (query, plan))
    (hname : query.cube.label.name = c.cube.label.name) :
    query.OfStatement (fun _ => c.Serves) statement ∧ ∃ parts : PlanParts,
      parts.Fit (fun _ => c.Serves) query.cube query.axes query.slicer
        ∧ plan = parts.plan query.cube query.slicer
        ∧ (ofCubes catalogName schemaName cubes).answer (.execute plan) = c.execute plan := by
  obtain ⟨hquery, parts, hparts, rfl⟩ := (Connection.ensures_run
    (Store.ensures_planned (lists_connection _ config calls) statement)
      (Connection.only_after (lists _) Shelves.only_empty calls)).2 _ h
  have hquery' := ofStatement_of_only honly hname hquery
  exact ⟨hquery', parts, fit_of_only honly hname hparts, rfl,
    answer_execute_of_query honly hc hobjects hname hquery' parts⟩

end

end MemoryEngine

end Datacube
