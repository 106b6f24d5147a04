import Datacube.Connection
import Datacube.Proofs.Plans
import Datacube.Proofs.Rows
import Datacube.Proofs.Statements

/-!
# What stores keep

A store keeps objects that its engine listed, and nothing else.  This holds of a new store, every
use of a store preserves it, and so it holds of a connection after any number of uses, whatever the
engine answers and whichever requests fail.

## Main definitions

* `Engine.Lists` — whether all objects that an engine lists satisfy a condition.
* `Shelves.Only` — whether all objects that are kept satisfy it.
* `Call`, `Connection.step`, `Connection.after` — the uses of a connection.

## Main results

* `Store.offers` — a store offers objects that its engine lists.
* `Connection.only_step`, `Connection.only_after` — **what is kept has been listed**.
* `Connection.planned`, `Connection.execute` — the result and the plan of a statement.
-/

namespace Datacube

/-! ### Engines -/

/-- The objects of a cube that the answer to a request describes. -/
def readObjects : Listing → RowSet → Outcome (List SchemaObject)
  | .cubes, rows => List.map .cube <$> readAll Cube rows
  | .dimensions, rows => List.map .dimension <$> readAll Dimension rows
  | .measures, rows => List.map .member <$> readMeasures rows
  | .hierarchies, rows => List.map .hierarchy <$> readAll Hierarchy rows
  | .levels, rows => List.map .level <$> readAll Level rows
  | .members, rows => List.map .member <$> readAll Member rows
  | .databases, _ | .catalogs, _ | .schemas, _ => .ok []

/-- Whether all objects that an engine lists satisfy a condition, which depends on the cube to which
a request is restricted. -/
def Engine.Lists {σ : Type} (engine : Engine σ) (listed : Option String → SchemaObject → Prop) :
    Prop :=
  ∀ listing restrictions state rows state',
    engine (.list listing restrictions) state = (.ok rows, state') →
    ∀ objects, readObjects listing rows = .ok objects → ∀ o ∈ objects, listed restrictions.cube o

/-! ### Slots -/

section

variable {α κ : Type} {P : α → Prop}

/-- Whether all items of a slot satisfy a condition. -/
def Slot.Holds (P : α → Prop) (t : Slot α) : Prop := ∀ items ∈ t.items?, ∀ a ∈ items, P a

namespace Slot

theorem holds_empty : Slot.Holds P {} := fun _ h => nomatch h

theorem holds_start {t : Slot α} : t.start.Holds P := fun _ h => nomatch h

theorem holds_reset {t : Slot α} : t.reset.Holds P := fun _ h => nomatch h

theorem holds_finish {t : Slot α} (ht : t.Holds P) (attempt : Nat) {result : Outcome (List α)}
    (hresult : ∀ items, result = .ok items → ∀ a ∈ items, P a) :
    (t.finish attempt result).Holds P := by
  unfold finish
  split
  · exact ht
  · split
    · rintro _ ⟨⟩
      exact hresult _ rfl
    · exact fun _ h => nomatch h

end Slot

/-- Whether all items of slots satisfy a condition, which depends on the key. -/
def Keyed.Holds [DecidableEq κ] (P : κ → α → Prop) (k : Keyed κ α) : Prop :=
  ∀ h, (k.slot h).Holds (P h.key)

theorem Keyed.holds_empty [DecidableEq κ] {P : κ → α → Prop} : Keyed.Holds P {} :=
  fun _ => Slot.holds_empty

theorem Keyed.holds_set [DecidableEq κ] {P : κ → α → Prop} {k : Keyed κ α} (hk : k.Holds P)
    {h : Handle κ} {t : Slot α} (ht : t.Holds (P h.key)) : (k.set h t).Holds P := by
  intro g
  by_cases e : g = h
  · subst e
    rwa [slot_set]
  · rw [slot_set_of_ne k e]
    exact hk g

end

/-! ### Collections -/

/-- Whether all objects that are kept satisfy a condition, which depends on the cube for which they
are kept. -/
structure Shelves.Only (listed : Option String → SchemaObject → Prop) (s : Shelves) : Prop where
  cubes : s.cubes.Holds fun x => listed none (.cube x)
  dimensions : s.dimensions.Holds fun name d => listed (some name) (.dimension d)
  measures : s.measures.Holds fun name a => listed (some name) (.member a) ∧ a.isMeasure
  hierarchies : s.hierarchies.Holds fun key h => listed (some key.1) (.hierarchy h)
  levels : s.levels.Holds fun key l => listed (some key.1) (.level l)
  members : s.members.Holds fun key a => listed (some key.1) (.member a)

namespace Shelves

variable {listed : Option String → SchemaObject → Prop}

/-- Nothing is kept at first. -/
theorem only_empty : Only listed {} :=
  ⟨Slot.holds_empty, Keyed.holds_empty, Keyed.holds_empty, Keyed.holds_empty, Keyed.holds_empty,
    Keyed.holds_empty⟩

theorem Only.reset {s : Shelves} (h : s.Only listed) : s.reset.Only listed :=
  ⟨Slot.holds_reset, h.dimensions, h.measures, h.hierarchies, h.levels, h.members⟩

end Shelves

/-- Whether the slot at a place may hold items that satisfy a condition, and holds no others. -/
structure Place.Keeps {α : Type} (I : Shelves → Prop) (P : α → Prop) (place : Place α) : Prop where
  get : ∀ s, I s → (place.get s).Holds P
  set : ∀ s t, I s → t.Holds P → I (place.set t s)

namespace Place

variable {listed : Option String → SchemaObject → Prop}

theorem keeps_databases : Keeps (Shelves.Only listed) (fun _ => True) databases :=
  ⟨fun _ _ _ _ _ _ => trivial,
    fun _ _ h _ => ⟨h.cubes, h.dimensions, h.measures, h.hierarchies, h.levels, h.members⟩⟩

theorem keeps_catalogs : Keeps (Shelves.Only listed) (fun _ => True) catalogs :=
  ⟨fun _ _ _ _ _ _ => trivial,
    fun _ _ h _ => ⟨h.cubes, h.dimensions, h.measures, h.hierarchies, h.levels, h.members⟩⟩

theorem keeps_schemas : Keeps (Shelves.Only listed) (fun _ => True) schemas :=
  ⟨fun _ _ _ _ _ _ => trivial,
    fun _ _ h _ => ⟨h.cubes, h.dimensions, h.measures, h.hierarchies, h.levels, h.members⟩⟩

theorem keeps_cubes : Keeps (Shelves.Only listed) (fun x => listed none (.cube x)) cubes :=
  ⟨fun _ h => h.cubes,
    fun _ _ h ht => ⟨ht, h.dimensions, h.measures, h.hierarchies, h.levels, h.members⟩⟩

theorem keeps_dimensions (g : Handle String) : Keeps (Shelves.Only listed)
    (fun d => listed (some g.key) (.dimension d)) (dimensions g) :=
  ⟨fun _ h => h.dimensions g, fun _ _ h ht =>
    ⟨h.cubes, Keyed.holds_set h.dimensions ht, h.measures, h.hierarchies, h.levels, h.members⟩⟩

theorem keeps_measures (g : Handle String) : Keeps (Shelves.Only listed)
    (fun a => listed (some g.key) (.member a) ∧ a.isMeasure) (measures g) :=
  ⟨fun _ h => h.measures g, fun _ _ h ht =>
    ⟨h.cubes, h.dimensions, Keyed.holds_set h.measures ht, h.hierarchies, h.levels, h.members⟩⟩

theorem keeps_hierarchies (g : Handle (String × String)) : Keeps (Shelves.Only listed)
    (fun a => listed (some g.key.1) (.hierarchy a)) (hierarchies g) :=
  ⟨fun _ h => h.hierarchies g, fun _ _ h ht =>
    ⟨h.cubes, h.dimensions, h.measures, Keyed.holds_set h.hierarchies ht, h.levels, h.members⟩⟩

theorem keeps_levels (g : Handle (String × String)) : Keeps (Shelves.Only listed)
    (fun l => listed (some g.key.1) (.level l)) (levels g) :=
  ⟨fun _ h => h.levels g, fun _ _ h ht =>
    ⟨h.cubes, h.dimensions, h.measures, h.hierarchies, Keyed.holds_set h.levels ht, h.members⟩⟩

theorem keeps_members (g : Handle (String × String)) : Keeps (Shelves.Only listed)
    (fun a => listed (some g.key.1) (.member a)) (members g) :=
  ⟨fun _ h => h.members g, fun _ _ h ht =>
    ⟨h.cubes, h.dimensions, h.measures, h.hierarchies, h.levels, Keyed.holds_set h.members ht⟩⟩

end Place

/-! ### Sessions -/

namespace Session

variable {σ α : Type} {I : Shelves → Prop} {P : α → Prop}

theorem ensures_look {β : Type} {f : Shelves → β} {Q : β → Prop} (h : ∀ s, I s → Q (f s)) :
    Ensures I (look f : Session σ β) Q :=
  fun s _ hI => ⟨hI, fun _ e => Except.ok.inj e ▸ h s hI⟩

theorem ensures_change {f : Shelves → Shelves} (h : ∀ s, I s → I (f s)) :
    Ensures I (change f : Session σ Unit) fun _ => True :=
  fun s _ hI => ⟨h s hI, fun _ _ => trivial⟩

theorem ensures_mk {x : Outcome α} :
    Ensures I (ExceptT.mk (pure x) : Session σ α) fun a => x = .ok a :=
  fun _ _ hI => ⟨hI, fun _ e => e⟩

theorem ensures_outcome {x : Session σ α} {Q : α → Prop} (hx : Ensures I x Q) :
    Ensures I (outcome x) fun result => ∀ a, result = .ok a → Q a := by
  intro s state hI
  obtain ⟨hI', hQ⟩ := hx s state hI
  exact ⟨hI', fun result e => Except.ok.inj e ▸ hQ⟩

/-- **The items of a slot** satisfy what those that are fetched satisfy, and the slot goes on to
hold such items only. -/
theorem ensures_itemsOf {place : Place α} (hplace : place.Keeps I P) {fetch : Session σ (List α)}
    (hfetch : Ensures I fetch fun items => ∀ a ∈ items, P a) :
    Ensures I (itemsOf place fetch) fun items => ∀ a ∈ items, P a := by
  unfold itemsOf
  refine ensures_bind (ensures_look (Q := fun found => ∀ items ∈ found, ∀ a ∈ items, P a)
    hplace.get) fun found hfound => ?_
  split
  · exact ensures_pure (hfound _ rfl)
  -- an attempt is started, the items are fetched, and the attempt is finished with them
  · have hstart : Ensures I (change fun s => place.set (place.get s).start s : Session σ Unit)
        fun _ => True := ensures_change fun s hI => hplace.set s _ hI Slot.holds_start
    refine ensures_bind hstart fun _ _ => ?_
    refine ensures_bind (ensures_look (Q := fun _ => True) fun _ _ => trivial) fun attempt _ => ?_
    refine ensures_bind (ensures_outcome hfetch) fun result hresult => ?_
    refine ensures_bind (ensures_change fun s hI => hplace.set s _ hI
      (Slot.holds_finish (hplace.get s hI) attempt hresult)) fun _ _ => ?_
    exact (assurance σ I).mono ensures_mk hresult

end Session

/-! ### Stores -/

namespace Store

variable {σ α : Type} {listed : Option String → SchemaObject → Prop} {s : Store σ}

/-- Whether an object of a cube is one that an engine lists for it. -/
def Listed (listed : Option String → SchemaObject → Prop) (cube : Cube) : SchemaObject → Prop
  | .cube x => listed none (.cube x)
  | o => listed (some cube.label.name) o

theorem ensures_ask {I : Shelves → Prop} (request : Request) :
    Session.Ensures I (s.ask request) fun rows => ∃ state state',
      s.engine request state = (.ok rows, state') := by
  intro shelves state hI
  refine ⟨hI, fun rows e => ⟨state, (s.engine request state).2, ?_⟩⟩
  exact Prod.ext e rfl

/-- Items of any kind may be fetched for a slot that may hold them. -/
theorem ensures_items [Record α] {I : Shelves → Prop} {place : Place α}
    (hplace : place.Keeps I fun _ => True) (listing : Listing) (restrictions : Restrictions) :
    Session.Ensures I (Session.itemsOf place (s.fetch α listing restrictions)) fun _ => True := by
  have hfetch : Session.Ensures I (s.fetch α listing restrictions) fun items =>
      ∀ a ∈ items, (fun _ => True) a := by
    refine Session.ensures_bind (ensures_ask _) fun rows _ => ?_
    refine (Session.assurance σ I).mono Session.ensures_mk ?_
    intro items _ a _
    trivial
  exact (Session.assurance σ I).mono (Session.ensures_itemsOf hplace hfetch) fun _ _ => trivial

/-- A lookup of a handle gives one of the key. -/
private theorem ensures_handle {I : Shelves → Prop} {κ β : Type} [DecidableEq κ]
    (get : Shelves → Keyed κ β) (key : κ) :
    Session.Ensures I (Session.look fun t => (get t).handle key : Session σ (Handle κ)) fun g =>
      g.key = key :=
  Session.ensures_look fun _ _ => rfl

variable (hs : s.engine.Lists listed)

include hs

/-- What is fetched is listed. -/
theorem ensures_fetch [Record α] {I : Shelves → Prop} {listing : Listing}
    {restrictions : Restrictions} (f : α → SchemaObject)
    (hf : ∀ rows, readObjects listing rows = List.map f <$> readAll α rows) :
    Session.Ensures I (s.fetch α listing restrictions) fun items =>
      ∀ a ∈ items, listed restrictions.cube (f a) := by
  refine Session.ensures_bind (ensures_ask _) fun rows ⟨state, state', hrows⟩ => ?_
  refine (Session.assurance σ I).mono Session.ensures_mk fun items hitems a ha => ?_
  refine hs _ _ _ _ _ hrows (items.map f) ?_ (f a) (List.mem_map_of_mem ha)
  rw [hf, hitems]
  rfl

theorem ensures_cubes :
    Session.Ensures (Shelves.Only listed) s.cubes fun xs => ∀ x ∈ xs, listed none (.cube x) :=
  Session.ensures_itemsOf Place.keeps_cubes (ensures_fetch hs .cube fun _ => rfl)

theorem ensures_cube? (name : String) : Session.Ensures (Shelves.Only listed) (s.cube? name)
    fun found => ∀ x ∈ found, listed none (.cube x) :=
  Session.ensures_bind (ensures_cubes hs) fun _ hxs =>
    Session.ensures_pure fun x hx => hxs x (List.mem_of_find?_eq_some hx)

theorem ensures_dimensions (cube : Cube) : Session.Ensures (Shelves.Only listed)
    (s.dimensions cube) fun ds => ∀ d ∈ ds, listed (some cube.label.name) (.dimension d) := by
  refine Session.ensures_bind (ensures_handle Shelves.dimensions cube.label.name) fun g hg => ?_
  rw [← hg]
  refine Session.ensures_itemsOf (Place.keeps_dimensions g) ?_
  refine Session.ensures_bind (ensures_fetch hs .dimension fun _ => rfl) fun ds hds => ?_
  exact Session.ensures_pure fun d hd => hg ▸ hds d (mem_sortBy.1 hd)

theorem ensures_hierarchies (cube : Cube) (d : Dimension) : Session.Ensures (Shelves.Only listed)
    (s.hierarchies cube d) fun hs => ∀ h ∈ hs, listed (some cube.label.name) (.hierarchy h) := by
  refine Session.ensures_bind (ensures_handle Shelves.hierarchies
    (cube.label.name, d.label.uniqueName)) fun g hg => ?_
  have hname : g.key.1 = cube.label.name := by rw [hg]
  rw [← hname]
  refine Session.ensures_itemsOf (Place.keeps_hierarchies g) ?_
  rw [hname]
  exact ensures_fetch hs .hierarchy fun _ => rfl

theorem ensures_levels (cube : Cube) (a : Hierarchy) : Session.Ensures (Shelves.Only listed)
    (s.levels cube a) fun ls => ∀ l ∈ ls, listed (some cube.label.name) (.level l) := by
  refine Session.ensures_bind (ensures_handle Shelves.levels
    (cube.label.name, a.label.uniqueName)) fun g hg => ?_
  have hname : g.key.1 = cube.label.name := by rw [hg]
  rw [← hname]
  refine Session.ensures_itemsOf (Place.keeps_levels g) ?_
  rw [hname]
  refine Session.ensures_bind (ensures_fetch hs .level fun _ => rfl) fun ls hls => ?_
  exact Session.ensures_pure fun l hl => hls l (mem_sortBy.1 hl)

theorem ensures_members (cube : Cube) (l : Level) : Session.Ensures (Shelves.Only listed)
    (s.members cube l) fun ms => ∀ a ∈ ms, listed (some cube.label.name) (.member a) := by
  refine Session.ensures_bind (ensures_handle Shelves.members
    (cube.label.name, l.label.uniqueName)) fun g hg => ?_
  have hname : g.key.1 = cube.label.name := by rw [hg]
  rw [← hname]
  refine Session.ensures_itemsOf (Place.keeps_members g) ?_
  rw [hname]
  refine Session.ensures_bind (ensures_fetch hs .member fun _ => rfl) fun ms hms => ?_
  exact Session.ensures_pure fun a ha => hms a (mem_sortBy.1 ha)

theorem ensures_measures (cube : Cube) : Session.Ensures (Shelves.Only listed)
    (s.measures cube) fun ms => ∀ a ∈ ms, listed (some cube.label.name) (.member a)
      ∧ a.isMeasure := by
  refine Session.ensures_bind (ensures_handle Shelves.measures cube.label.name) fun g hg => ?_
  rw [← hg]
  refine Session.ensures_itemsOf (Place.keeps_measures g) ?_
  rw [hg]
  refine Session.ensures_bind (ensures_ask _) fun rows ⟨state, state', hrows⟩ => ?_
  refine (Session.assurance σ _).mono Session.ensures_mk ?_
  intro ms hms a ha
  constructor
  · refine hs _ _ _ _ _ hrows (ms.map .member) ?_ _ (List.mem_map_of_mem ha)
    rw [readObjects, hms]
    rfl
  · obtain ⟨row, -, ordinal, hrow⟩ := exists_left_of_forall₂ (forall₂_readMeasures hms) ha
    exact isMeasure_of_readMeasure hrow

/-- **A store offers objects that its engine lists.** -/
theorem offers : s.provider.Offers (Session.assurance σ (Shelves.Only listed)) (Listed listed) where
  cubes := ensures_cube? hs
  dimensions := ensures_dimensions hs
  hierarchies := ensures_hierarchies hs
  levels := ensures_levels hs
  members := ensures_members hs
  measures := ensures_measures hs

/-- **An evaluated statement and its plan**: the result is as described, and the plan is made of
parts that fit. -/
theorem ensures_planned (statement : Select Expr) : Session.Ensures (Shelves.Only listed)
    (s.planned statement) fun (query, plan) => query.OfStatement (Listed listed) statement
      ∧ ∃ parts : PlanParts, parts.Fit (Listed listed) query.cube query.axes query.slicer
        ∧ plan = parts.plan query.cube query.slicer := by
  refine Session.ensures_bind ((offers hs).evaluateQuery statement) fun query hquery => ?_
  have hplan := ((offers hs).matches query.cube).planOfAxes query.axes query.slicer
  exact Session.ensures_bind hplan fun plan hplan => Session.ensures_pure ⟨hquery, hplan⟩

/-- **The result of a statement** is made of the evaluated statement, its plan and an answer of the
engine to the plan. -/
theorem ensures_execute (statement : Select Expr) : Session.Ensures (Shelves.Only listed)
    (s.execute statement) fun result => ∃ query plan rows state state',
      (query.OfStatement (Listed listed) statement
        ∧ ∃ parts : PlanParts, parts.Fit (Listed listed) query.cube query.axes query.slicer
          ∧ plan = parts.plan query.cube query.slicer)
      ∧ s.engine (.execute plan) state = (.ok rows, state')
      ∧ CellSet.ofResult query plan rows = .ok result := by
  refine Session.ensures_bind (ensures_planned hs statement) fun (query, plan) hplanned => ?_
  refine Session.ensures_bind (ensures_ask _) fun rows ⟨state, state', hrows⟩ => ?_
  exact (Session.assurance σ _).mono Session.ensures_mk fun result hresult =>
    ⟨query, plan, rows, state, state', hplanned, hrows, hresult⟩

end Store

/-! ### Connections -/

/-- A use of a connection. -/
inductive Call where
  | databases
  | catalogs
  | schemas
  | cubes
  | cube (name : String)
  | dimensions (cube : Cube)
  | hierarchies (cube : Cube) (dimension : Dimension)
  | levels (cube : Cube) (hierarchy : Hierarchy)
  | members (cube : Cube) (level : Level)
  | measures (cube : Cube)
  | reset
  | explain (statement : Select Expr)
  | execute (statement : Select Expr)
  | setLocale (locale : Option String)

namespace Connection

variable {σ α : Type}

/-- The connection after a use of it. -/
def step (c : Connection σ) : Call → Connection σ
  | .databases => (c.run Store.databases).2
  | .catalogs => (c.run Store.catalogs).2
  | .schemas => (c.run Store.schemas).2
  | .cubes => (c.run Store.cubes).2
  | .cube name => (c.run (·.cube? name)).2
  | .dimensions cube => (c.run (·.dimensions cube)).2
  | .hierarchies cube d => (c.run (·.hierarchies cube d)).2
  | .levels cube h => (c.run (·.levels cube h)).2
  | .members cube l => (c.run (·.members cube l)).2
  | .measures cube => (c.run (·.measures cube)).2
  | .reset => (c.run fun _ => Store.reset).2
  | .explain statement => (c.run (·.explain statement)).2
  | .execute statement => (c.run (·.execute statement)).2
  | .setLocale locale => c.setLocale locale

/-- The connection after several uses of it. -/
def after (c : Connection σ) (calls : List Call) : Connection σ := calls.foldl step c

@[simp] theorem engine_step (c : Connection σ) (call : Call) : (c.step call).engine = c.engine := by
  cases call <;> rfl

@[simp] theorem engine_after (c : Connection σ) (calls : List Call) :
    (c.after calls).engine = c.engine := by
  induction calls generalizing c with
  | nil => rfl
  | cons call calls ih => exact (ih _).trans (engine_step c call)

variable {listed : Option String → SchemaObject → Prop} {c : Connection σ}

/-- A use that keeps an invariant of the collections, with what it ensures. -/
theorem ensures_run {I : Shelves → Prop} {use : Store σ → Session σ α} {Q : α → Prop}
    (huse : Session.Ensures I (use c.store) Q) (hc : I c.shelves) :
    I (c.run use).2.shelves ∧ ∀ a, (c.run use).1 = .ok a → Q a :=
  huse c.shelves c.state hc

variable (hengine : c.engine.Lists listed)

include hengine

/-- **Every use of a connection keeps listed objects only.** -/
theorem only_step (hc : c.shelves.Only listed) (call : Call) :
    (c.step call).shelves.Only listed := by
  have hstore : c.store.engine.Lists listed := hengine
  cases call with
  | databases => exact (ensures_run (Store.ensures_items Place.keeps_databases _ _) hc).1
  | catalogs => exact (ensures_run (Store.ensures_items Place.keeps_catalogs _ _) hc).1
  | schemas => exact (ensures_run (Store.ensures_items Place.keeps_schemas _ _) hc).1
  | cubes => exact (ensures_run (Store.ensures_cubes hstore) hc).1
  | cube name => exact (ensures_run (Store.ensures_cube? hstore name) hc).1
  | dimensions cube => exact (ensures_run (Store.ensures_dimensions hstore cube) hc).1
  | hierarchies cube d => exact (ensures_run (Store.ensures_hierarchies hstore cube d) hc).1
  | levels cube h => exact (ensures_run (Store.ensures_levels hstore cube h) hc).1
  | members cube l => exact (ensures_run (Store.ensures_members hstore cube l) hc).1
  | measures cube => exact (ensures_run (Store.ensures_measures hstore cube) hc).1
  | reset => exact (ensures_run (Session.ensures_change fun _ h => h.reset) hc).1
  | explain statement =>
    refine (ensures_run (Q := fun _ => True) ?_ hc).1
    exact Session.ensures_bind (Store.ensures_planned hstore statement) fun _ _ =>
      Session.ensures_pure trivial
  | execute statement => exact (ensures_run (Store.ensures_execute hstore statement) hc).1
  | setLocale locale => exact hc.reset

/-- **What a connection keeps has been listed**, after any number of uses. -/
theorem only_after (hc : c.shelves.Only listed) (calls : List Call) :
    (c.after calls).shelves.Only listed := by
  induction calls generalizing c with
  | nil => exact hc
  | cons call calls ih => exact ih (by rwa [engine_step]) (only_step hengine hc call)

end Connection

end Datacube
