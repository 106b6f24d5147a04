import Datacube.Proofs.KeptAnswers
import Datacube.Proofs.Listings

/-!
# What lookups find in memory

An engine serves a cube that was built from a description, and no other cube answers to its name.
Then every dimension of the cube has one hierarchy, of the same unique name, and the unique name of
a level determines its hierarchy.  So lookups lead from a member to the hierarchy and the level
around it, after any uses of a connection to the engine.

## Main definitions

* `Member.Within` — whether a member is in a level that is described.

## Main results

* `MemoryEngine.level_eq_of_found` — **the level that is found** for a member depends on the unique
  name of its level only.
* `MemoryEngine.exists_dimension` — every dimension of the cube is listed.
* `MemoryEngine.planned_found`, `MemoryEngine.executed_found` — **the parts of the plan of a
  statement** are what lookups find.
-/

namespace Datacube

/-! ### Built cubes -/

/-- Whether a member is in a level that is described. -/
def Member.Within (d : CubeDescription) (a : Member) : Prop :=
  ∃ l ∈ d.toLevels, a.level = l.label.uniqueName ∧ a.hierarchy = l.hierarchy
    ∧ a.dimension = l.dimension

/-- Members in levels of one unique name are in one dimension and hierarchy. -/
theorem Member.Within.same {d : CubeDescription} {a b : Member} (ha : a.Within d) (hb : b.Within d)
    (h : a.level = b.level) : a.dimension = b.dimension ∧ a.hierarchy = b.hierarchy := by
  obtain ⟨l, hl, hlevel, hhierarchy, hdimension⟩ := ha
  obtain ⟨l', hl', hlevel', hhierarchy', hdimension'⟩ := hb
  have hformed := CubeDescription.formed_of_mem_toLevels hl
  obtain ⟨hd, hh⟩ := hformed.same (CubeDescription.formed_of_mem_toLevels hl')
    (hlevel.symm.trans (h.trans hlevel'))
  exact ⟨hdimension.trans (hd.trans hdimension'.symm),
    hhierarchy.trans (hh.trans hhierarchy'.symm)⟩

/-- The dimension of a member has the unique name of its hierarchy and is described. -/
theorem Member.Within.dimension_eq {d : CubeDescription} {a : Member} (ha : a.Within d) :
    a.dimension = a.hierarchy ∧ ∃ dim ∈ d.dimensions, a.dimension = quoteSegment dim.name := by
  obtain ⟨l, hl, -, hhierarchy, hdimension⟩ := ha
  obtain ⟨dim, hdim, name, depth, -, rfl⟩ := CubeDescription.mem_toLevels.1 hl
  exact ⟨hdimension.trans hhierarchy.symm, dim, hdim, hdimension⟩

/-- The dimension of a member is not that of the measures, if no described one is called so. -/
theorem Member.Within.dimension_ne {d : CubeDescription} {a : Member} (ha : a.Within d)
    (hd : "Measures" ∉ d.dimensions.map DimensionDescription.name) :
    a.dimension ≠ measuresDimension := by
  intro heq
  obtain ⟨-, dim, hmem, hname⟩ := ha.dimension_eq
  refine hd (List.mem_map.2 ⟨dim, hmem, ?_⟩)
  exact quoteSegment_inj (hname.symm.trans heq)

namespace MemoryCube

variable {c : MemoryCube} {d : CubeDescription}

/-- The unique name of a level of a cube begins with that of its hierarchy. -/
theorem Built.formed (hbuilt : c.Built d) {l : Level} (hl : l ∈ c.levels) : l.Formed := by
  rcases hbuilt.levels l hl with ⟨l', hl', hplace⟩ | rfl
  · obtain ⟨dimension, name, hunique, hdimension, hhierarchy⟩ :=
      CubeDescription.formed_of_mem_toLevels hl'
    obtain ⟨hlabel, hsame, -⟩ := Level.same_of_place hplace
    have hdim : l'.dimension = l.dimension := congrArg (·.dimension) hplace
    exact ⟨dimension, name, hlabel ▸ hunique, hdim ▸ hdimension, hsame ▸ hhierarchy⟩
  · exact ⟨"Measures", "MeasuresLevel", show measuresLevel = _ by decide,
      show measuresDimension = _ by decide, show measuresHierarchy = _ by decide⟩

/-- **A served member** is in a level that is described. -/
theorem Filled.within_of_serves (hfilled : c.Filled d) {a : Member}
    (h : c.Serves (.member a)) (ha : a.isMeasure = false) : a.Within d := by
  rcases h with ⟨b, hb, hread⟩ | ⟨b, -, ordinal, hread⟩
  · obtain ⟨l, hl, hmem⟩ := hfilled.exists_level hb
    have hmem' := (mem_of_levelNamed? hl).1
    obtain ⟨m, ordinal, -, rfl⟩ := Level.mem_membersOf.1 hmem
    obtain ⟨-, -, -, hdimension, hhierarchy, hlevel, -⟩ := Member.read_eq_ok.1 hread
    exact ⟨l, hmem', (presence_eq_some.1 hlevel).1.symm, (presence_eq_some.1 hhierarchy).1.symm,
      (presence_eq_some.1 hdimension).1.symm⟩
  · rw [isMeasure_of_readMeasure hread] at ha
    cases ha

end MemoryCube

/-! ### Engines in memory -/

namespace MemoryEngine

variable {σ : Type} {catalogName schemaName : String} {cubes : List MemoryCube} {c : MemoryCube}
  (honly : ∀ c' ∈ cubes, isNamed c'.cube c.cube.label.name = true → c' = c)

include honly

/-- What is selected by the name of a cube is the cube. -/
private theorem eq_of_mem_selected {r : Restrictions} (hr : r.cube = some c.cube.label.name)
    {c' : MemoryCube} (h : c' ∈ (ofCubes catalogName schemaName cubes).selected r) :
    c' = { c with cube := { c.cube with catalogName, schemaName } } := by
  obtain ⟨hmem, hname⟩ := mem_of_mem_selected h
  exact eq_of_mem_ofCubes honly hmem (hname _ hr)

variable {s : Store σ} {x : Cube} (hx : x.label.name = c.cube.label.name) {d : CubeDescription}

include hx

/-- What is read from listed rows of the cube. -/
private theorem exists_of_mem_list {α : Type} [Record α] {f : MemoryCube → List α}
    {r : Restrictions} (hr : r.cube = some x.label.name) (hf : ∀ cube, f { c with cube } = f c)
    {objects : List α} (h : readAll α (rowsOf r
      (((ofCubes catalogName schemaName cubes).selected r).flatMap f)) = .ok objects)
    {a : α} (ha : a ∈ objects) :
    ∃ b ∈ f c, r.admits (rowOf b) = true ∧ Record.read (rowOf b) = .ok a := by
  obtain ⟨c', hc', b, hb, hadmits, hread⟩ := exists_of_mem_readAll h ha
  rw [eq_of_mem_selected honly (hx ▸ hr) hc', hf] at hb
  exact ⟨b, hb, hadmits, hread⟩

/-- **The hierarchy of a unique name** is in the dimension of this name. -/
theorem dimension_of_found (hfilled : c.Filled d) {name : String} {h : Hierarchy}
    (hfound : (s.findings (ofCubes catalogName schemaName cubes).answer x).hierarchy name h) :
    h.dimension = name := by
  obtain ⟨rfl, o, hs, hanswer, hmem⟩ := hfound
  obtain ⟨b, hb, -, hread⟩ := exists_of_mem_list honly hx
    (r := s.restrictions (.hierarchies x o)) rfl (fun _ => rfl) hanswer hmem
  obtain ⟨hunique, -, hne⟩ := hfilled.of_mem_hierarchies hb
  obtain ⟨hlabel, -, hdimension⟩ := Hierarchy.read_eq_ok.1 hread
  rw [Label.uniqueName_of_read rfl (hunique ▸ hne) hlabel, hunique]
  exact (presence_eq_some.1 hdimension).1.symm

/-- **Listed levels** are read from rows of levels in the hierarchy for which they are listed. -/
private theorem exists_of_mem_levels (hbuilt : c.Built d) {h : Hierarchy} {ls : List Level}
    (hanswer : s.answer (ofCubes catalogName schemaName cubes).answer (.levels x h) = .ok ls)
    {l : Level} (hl : l ∈ ls) : c.Serves (.level l) ∧ l.Formed
      ∧ l.hierarchy = h.label.uniqueName ∧ h.dimension = h.label.uniqueName := by
  obtain ⟨objects, hobjects, rfl⟩ := Outcome.map_eq_ok.1 hanswer
  obtain ⟨b, hb, hadmits, hread⟩ := exists_of_mem_list honly hx
    (r := s.restrictions (.levels x h)) rfl (fun _ => rfl) hobjects (mem_sortBy.1 hl)
  rw [admits_level, Bool.and_eq_true, Bool.and_eq_true, beq_iff_eq, beq_iff_eq,
    beq_iff_eq] at hadmits
  obtain ⟨-, hdimension, hhierarchy⟩ := hadmits
  obtain ⟨-, hsame⟩ := hbuilt.dimension_eq hb
  obtain ⟨dimension, name, hunique, hdim, hhier⟩ := hbuilt.formed hb
  obtain ⟨hlabel, -, hreadDimension, hreadHierarchy, -⟩ := Level.read_eq_ok.1 hread
  have hname : l.label.uniqueName = b.label.uniqueName :=
    Label.uniqueName_of_read rfl (hunique ▸ quoteSegment_dot_ne_empty _ _) hlabel
  have hldim : b.dimension = l.dimension := (presence_eq_some.1 hreadDimension).1
  have hlhier : b.hierarchy = l.hierarchy := (presence_eq_some.1 hreadHierarchy).1
  refine ⟨⟨b, hb, hread⟩, ⟨dimension, name, hname.trans hunique, hldim ▸ hdim, hlhier ▸ hhier⟩,
    hlhier.symm.trans hhierarchy, ?_⟩
  rw [← hdimension, ← hhierarchy, hsame]

/-- **The level that is found for a member** has the unique names that the member gives. -/
theorem level_of_found (hbuilt : c.Built d) {a : Member} {l : Level}
    (hfound : (s.findings (ofCubes catalogName schemaName cubes).answer x).level a l) :
    c.Serves (.level l) ∧ l.Formed ∧ l.label.uniqueName = a.level ∧ l.hierarchy = a.hierarchy := by
  obtain ⟨h, ls, hname, hanswer, hfind⟩ := hfound
  obtain ⟨hmem, hlevel⟩ := mem_of_find?_key hfind
  obtain ⟨hserves, hformed, hhierarchy, -⟩ := exists_of_mem_levels honly hx hbuilt hanswer hmem
  exact ⟨hserves, hformed, hlevel, hhierarchy.trans hname⟩

/-- **The level that is found** depends on its unique name only. -/
theorem level_eq_of_found (hbuilt : c.Built d) {a a' : Member} {l l' : Level}
    (hfound : (s.findings (ofCubes catalogName schemaName cubes).answer x).level a l)
    (hfound' : (s.findings (ofCubes catalogName schemaName cubes).answer x).level a' l')
    (hsame : l.label.uniqueName = l'.label.uniqueName) : l = l' := by
  obtain ⟨h, ls, hname, hanswer, hfind⟩ := hfound
  obtain ⟨h', ls', hname', hanswer', hfind'⟩ := hfound'
  obtain ⟨hmem, hlevel⟩ := mem_of_find?_key hfind
  obtain ⟨hmem', hlevel'⟩ := mem_of_find?_key hfind'
  obtain ⟨-, hformed, hhierarchy, hdimension⟩ :=
    exists_of_mem_levels honly hx hbuilt hanswer hmem
  obtain ⟨-, hformed', hhierarchy', hdimension'⟩ :=
    exists_of_mem_levels honly hx hbuilt hanswer' hmem'
  -- the unique name determines the hierarchy, so both were found in the same list
  have hunique : h.label.uniqueName = h'.label.uniqueName := by
    rw [← hhierarchy, ← hhierarchy', (hformed.same hformed' hsame).2]
  have hagrees : Inquiry.Agrees (.levels x h) (.levels x h') :=
    hdimension.trans (hunique.trans hdimension'.symm)
  have hslot : Inquiry.slot (.levels x h) = Inquiry.slot (.levels x h') :=
    congrArg (fun name => (⟨.levels, (x.label.name, name)⟩ : Σ l : Listing, l.Key)) hunique
  have hrequest := hagrees.restrictions_eq hslot s
  rw [Store.answer, hrequest] at hanswer
  obtain rfl : ls = ls' := Except.ok.inj (hanswer.symm.trans hanswer')
  rw [← hlevel, hsame, hlevel', hfind'] at hfind
  exact (Option.some.inj hfind).symm

/-- **Every dimension of the cube** is listed, with its unique name and its type. -/
theorem exists_dimension (hbuilt : c.Built d) (hfilled : c.Filled d)
    (hlisted : s.Among (ofCubes catalogName schemaName cubes).answer x (.cube x))
    {ds : List Dimension}
    (hfound : (s.findings (ofCubes catalogName schemaName cubes).answer x).dimensions ds)
    {b : Dimension} (hb : b ∈ c.dimensions) :
    ∃ y ∈ ds, y.label.uniqueName = b.label.uniqueName ∧ y.type = b.type := by
  -- the cube is listed, so it satisfies the restrictions to a catalog and a schema
  obtain ⟨xs, hxs, hmem⟩ := hlisted
  obtain ⟨y, hy, hread⟩ := exists_left_of_forall₂ (readAll_rowSetOf.1 hxs) hmem
  obtain ⟨c', hc', rfl⟩ := List.mem_map.1 hy
  have hname : isNamed c'.cube c.cube.label.name = true := by
    rw [← hx, Cube.name_of_read_rowOf hread]
    simp [isNamed, label, Labelled.label]
  have hselected : c' ∈ (ofCubes catalogName schemaName cubes).selected
      (s.restrictions (.dimensions x)) := by
    obtain ⟨hmem', hselects⟩ := List.mem_filter.1 hc'
    refine List.mem_filter.2 ⟨hmem', ?_⟩
    rw [selects, Bool.and_eq_true] at hselects ⊢
    refine ⟨hselects.1, ?_⟩
    have hcube : satisfies (some x.label.name) (isNamed c'.cube) = true := by
      rw [hx]
      exact hname
    exact hcube
  have hc : c' = { c with cube := { c.cube with catalogName, schemaName } } :=
    eq_of_mem_selected honly (congrArg some hx) hselected
  obtain ⟨objects, hobjects, rfl⟩ := Outcome.map_eq_ok.1 hfound
  have hdimension : b.cubeName = d.name ∧ b.label.uniqueName ≠ "" := by
    rw [hfilled.dimensions] at hb
    rcases CubeDescription.mem_dimensions.1 hb with ⟨_, _, -, rfl⟩ | ⟨-, rfl⟩
    · exact ⟨rfl, quoteSegment_ne_empty _⟩
    · exact ⟨rfl, quoteSegment_ne_empty "Measures"⟩
  have hadmits : (s.restrictions (.dimensions x)).admits (rowOf b) = true := by
    rw [admits_dimension, hx, hbuilt.cube, hdimension.1]
    exact beq_self_eq_true d.name
  obtain ⟨y, hy, hread⟩ := exists_mem_of_readAll hobjects hselected (hc ▸ hb) hadmits
  obtain ⟨hlabel, -, htype, -⟩ := Dimension.read_eq_ok.1 hread
  refine ⟨y, mem_sortBy.2 hy, Label.uniqueName_of_read rfl hdimension.2 hlabel, ?_⟩
  have htext : (rowOf b).text? Column.dimensionType = some b.type.code.repr :=
    presence_of_ne (by cases b.type <;> decide)
  rw [htype, htext, Option.map_some, DimensionType.parse_repr_code, Option.getD_some]

end MemoryEngine

/-! ### Statements -/

namespace MemoryEngine

variable {e : MemoryEngine} {config : Config} {calls : List Call} {statement : Select Expr}

/-- What a connection keeps are answers of its engine, after any uses. -/
private theorem answered_connection (e : MemoryEngine) (config : Config) (calls : List Call) :
    ((e.connection config).after calls).shelves.Keeps
      (((e.connection config).after calls).store.Answered e.answer) :=
  Connection.answered_after (c := e.connection config) rfl rfl calls

/-- **The plan of a statement** is made of what lookups find, after any uses of a connection. -/
theorem planned_found {query : Query} {plan : Plan}
    (h : (((e.connection config).after calls).run (·.planned statement)).1 = .ok (query, plan)) :
    statement.Knows ((e.connection config).store.Among e.answer) query.cube (.cube query.cube)
      ∧ ∃ parts : PlanParts,
        parts.Found ((e.connection config).store.findings e.answer query.cube) query.axes
            query.slicer
          ∧ plan = parts.plan query.cube query.slicer := by
  have hplanned := Store.ensures_looked_up (e.engine_connection config calls) statement
  have hfound := (Connection.ensures_run hplanned (answered_connection e config calls)).2 _ h
  rwa [Connection.store_after] at hfound

/-- **The result of a statement** is made with such a plan, which has been executed. -/
theorem executed_found {s : CellSet}
    (h : (((e.connection config).after calls).run (·.execute statement)).1 = .ok s) :
    ∃ (query : Query) (parts : PlanParts) (rows : RowSet),
      parts.Found ((e.connection config).store.findings e.answer query.cube) query.axes
          query.slicer
        ∧ e.answer (.execute (parts.plan query.cube query.slicer)) = .ok rows
        ∧ CellSet.ofResult query (parts.plan query.cube query.slicer) rows = .ok s := by
  have hexecuted := Store.ensures_executed (e.engine_connection config calls) statement
  have hfound := (Connection.ensures_run hexecuted (answered_connection e config calls)).2 _ h
  rwa [Connection.store_after] at hfound

end MemoryEngine

end Datacube
