import Datacube.Proofs.Declarations
import Datacube.Proofs.MemoryEngines
import Datacube.Proofs.RoundTrips
import Datacube.Proofs.Transparency

/-!
# What engines in memory list

An engine in memory serves a cube that is built from a description, and no other cube answers to
its name.  What the engine lists for this cube are its objects in order, each under the names that
it has.

## Main definitions

* `CubeDescription.Countable` — whether numbers are counts.
* `Level.Formed` — whether the unique name of a level begins with that of its hierarchy.
* `MemoryCube.levelsIn` — the levels of a dimension.
* `Store.ListsBuilt` — whether what is listed for a cube are its objects.

## Main results

* `MemoryCube.Filled.hierarchies_of_dimension` — the hierarchy of a dimension has its name.
* `MemoryCube.Filled.map_place_levelsIn` — the levels of a dimension are those described for it.
* `MemoryEngine.listsBuilt` — **what the engine lists**.
-/

namespace Datacube

/-! ### Built cubes -/

/-- Whether the numbers of dimensions, levels and members are counts.  No list in memory has so many
elements that its length is none. -/
structure CubeDescription.Countable (d : CubeDescription) : Prop where
  dimensions : d.dimensions.length < countBound
  levels : ∀ dim ∈ d.dimensions, dim.levels.length < countBound
  members : d.members.length < countBound

/-- Whether the unique name of a level begins with that of its dimension and its hierarchy. -/
def Level.Formed (l : Level) : Prop :=
  ∃ dimension name, l.label.uniqueName = quoteSegment dimension ++ "." ++ quoteSegment name
    ∧ l.dimension = quoteSegment dimension ∧ l.hierarchy = quoteSegment dimension

/-- Levels of one unique name are in the same hierarchy. -/
theorem Level.Formed.same {l l' : Level} (hl : l.Formed) (hl' : l'.Formed)
    (h : l.label.uniqueName = l'.label.uniqueName) :
    l.dimension = l'.dimension ∧ l.hierarchy = l'.hierarchy := by
  obtain ⟨dimension, name, hname, hdimension, hhierarchy⟩ := hl
  obtain ⟨dimension', name', hname', hdimension', hhierarchy'⟩ := hl'
  obtain ⟨rfl, -⟩ := quoteSegment_dot_inj (hname.symm.trans (h.trans hname'))
  exact ⟨hdimension.trans hdimension'.symm, hhierarchy.trans hhierarchy'.symm⟩

theorem CubeDescription.formed_of_mem_toLevels {d : CubeDescription} {l : Level}
    (hl : l ∈ d.toLevels) : l.Formed := by
  obtain ⟨dim, -, name, depth, -, rfl⟩ := mem_toLevels.1 hl
  exact ⟨dim.name, name, rfl, rfl, rfl⟩

namespace MemoryCube

variable (c : MemoryCube)

/-- The levels of a dimension. -/
def levelsIn (dim : DimensionDescription) : List Level :=
  c.levels.filter (·.hierarchy == quoteSegment dim.name)

variable {c} {d : CubeDescription}

/-- A level of a cube is in the hierarchy of its dimension. -/
theorem Built.dimension_eq (hc : c.Built d) {l : Level} (hl : l ∈ c.levels) :
    l.cubeName = d.name ∧ l.dimension = l.hierarchy := by
  rcases hc.levels l hl with ⟨l', hl', hplace⟩ | rfl
  · obtain ⟨_, _, _, _, _, rfl⟩ := CubeDescription.mem_toLevels.1 hl'
    have hcube : d.name = l.cubeName := congrArg Level.cubeName hplace
    have hdimension := congrArg Level.dimension hplace
    have hhierarchy := congrArg Level.hierarchy hplace
    exact ⟨hcube.symm, hdimension.symm.trans hhierarchy⟩
  · exact ⟨rfl, rfl⟩

/-- **The member of a cube** was described for its level. -/
theorem Filled.exists_level (hc : c.Filled d) {a : Member} (ha : a ∈ c.members) :
    ∃ l, levelNamed? a.level d.toLevels = some l ∧ a ∈ l.membersOf d.members := by
  have hmem : a ∈ c.members.filter (·.level == a.level) :=
    List.mem_filter.2 ⟨ha, beq_self_eq_true _⟩
  rw [hc.members] at hmem
  cases hl : levelNamed? a.level d.toLevels with
  | none =>
    rw [hl] at hmem
    cases hmem
  | some l =>
    rw [hl] at hmem
    exact ⟨l, rfl, hmem⟩

/-- Dimensions of different names were described with different names. -/
theorem Filled.apart (hc : c.Filled d) (h : (c.dimensions.map (·.label.name)).Nodup) : d.Apart := by
  have hnames : d.toDimensions.map (·.label.name) = d.dimensions.map DimensionDescription.name := by
    rw [CubeDescription.toDimensions, List.map_map]
    have hfst := congrArg (List.map DimensionDescription.name) (List.zipIdx_map_fst 0 d.dimensions)
    rwa [List.map_map] at hfst
  rw [hc.dimensions, List.map_append, hnames, CubeDescription.measuresDimensions] at h
  refine ⟨h.of_append_left, fun hmeasures hmem => ?_⟩
  rw [hmeasures] at h
  exact (List.nodup_append.1 h).2.2 _ hmem _ List.mem_cons_self rfl

/-- **The hierarchy of a dimension** is the one of its name. -/
theorem Filled.hierarchies_of_dimension (hc : c.Filled d) (hd : d.Apart)
    {dim : DimensionDescription} (hdim : dim ∈ d.dimensions) :
    c.hierarchies.filter (·.dimension == quoteSegment dim.name) = [dim.toHierarchy d.name] := by
  obtain ⟨rest, hhierarchies, hrest⟩ := hc.hierarchies
  have hnone : rest.filter (·.dimension == quoteSegment dim.name) = [] := by
    refine List.filter_eq_nil_iff.2 fun a ha heq => ?_
    obtain ⟨hmeasures, rfl⟩ := hrest a ha
    exact hd.ne_measuresDimension hdim hmeasures (eq_of_beq heq)
  rw [hhierarchies, List.filter_append, hnone, List.append_nil, List.map_eq_flatMap]
  refine filter_flatMap_of_key hd.dimensions hdim ?_ ?_
  · exact List.forall_mem_singleton.2 (beq_self_eq_true _)
  · intro other _ hne
    exact List.forall_mem_singleton.2 (beq_false_of_ne fun h => hne (quoteSegment_inj h))

/-- **The levels of a dimension** are those described for it. -/
theorem Filled.map_place_levelsIn (hc : c.Filled d) (hd : d.Apart) {dim : DimensionDescription}
    (hdim : dim ∈ d.dimensions) : (c.levelsIn dim).map Level.place = dim.toLevels d.name := by
  obtain ⟨ls, rest, hlevels, hplaces, -, -, hrest⟩ := hc.levels
  have hnone : rest.filter (·.hierarchy == quoteSegment dim.name) = [] := by
    refine List.filter_eq_nil_iff.2 fun l hl heq => ?_
    obtain ⟨hmeasures, rfl⟩ := hrest l hl
    exact hd.ne_measuresDimension hdim hmeasures (eq_of_beq heq)
  have hfilter : (ls.filter (·.hierarchy == quoteSegment dim.name)).map Level.place
      = (ls.map Level.place).filter (·.hierarchy == quoteSegment dim.name) := by
    rw [List.filter_map]
    rfl
  rw [levelsIn, hlevels, List.filter_append, hnone, List.append_nil, hfilter, hplaces]
  refine filter_flatMap_of_key hd.dimensions hdim ?_ ?_
  · intro l hl
    obtain ⟨_, _, -, rfl⟩ := DimensionDescription.mem_toLevels.1 hl
    exact beq_self_eq_true _
  · intro dim' _ hne l hl
    obtain ⟨_, _, -, rfl⟩ := DimensionDescription.mem_toLevels.1 hl
    exact beq_false_of_ne fun h => hne (quoteSegment_inj h)

/-- The depths of the levels of a dimension are their places. -/
theorem Filled.map_depth_levelsIn (hc : c.Filled d) (hd : d.Apart) {dim : DimensionDescription}
    (hdim : dim ∈ d.dimensions) :
    (c.levelsIn dim).map Level.depth = List.range dim.levels.length := by
  rw [← DimensionDescription.map_depth_toLevels, ← hc.map_place_levelsIn hd hdim, List.map_map]
  rfl

theorem Filled.of_mem_levelsIn (hc : c.Filled d) (hd : d.Apart) {dim : DimensionDescription}
    (hdim : dim ∈ d.dimensions) {l : Level} (hl : l ∈ c.levelsIn dim) :
    l.place ∈ dim.toLevels d.name ∧ l.cardinality ≤ d.members.length := by
  have hplace : l.place ∈ dim.toLevels d.name := by
    rw [← hc.map_place_levelsIn hd hdim]
    exact List.mem_map_of_mem hl
  refine ⟨hplace, ?_⟩
  obtain ⟨ls, rest, hlevels, -, -, hcardinality, hrest⟩ := hc.levels
  have hmem := (List.mem_filter.1 hl).1
  rw [hlevels] at hmem
  rcases List.mem_append.1 hmem with hmem | hmem
  · exact hcardinality l hmem
  -- the level of the measures is in no dimension that is described
  · obtain ⟨hmeasures, rfl⟩ := hrest l hmem
    exact absurd (eq_of_beq (List.mem_filter.1 hl).2) (hd.ne_measuresDimension hdim hmeasures)

theorem Filled.formed_of_mem_levelsIn (hc : c.Filled d) (hd : d.Apart) {dim : DimensionDescription}
    (hdim : dim ∈ d.dimensions) {l : Level} (hl : l ∈ c.levelsIn dim) : l.Formed := by
  have hplace := (hc.of_mem_levelsIn hd hdim hl).1
  have hformed : l.place.Formed :=
    CubeDescription.formed_of_mem_toLevels (CubeDescription.mem_toLevels_of_mem hdim hplace)
  exact hformed

end MemoryCube

/-! ### Objects that are read back -/

section

variable {d : CubeDescription} {c : MemoryCube} (hname : d.name ≠ "") (hfilled : c.Filled d)

include hname hfilled

private theorem read_dimension (hcountable : d.Countable) {a : Dimension} (ha : a ∈ c.dimensions) :
    Record.read (rowOf a) = .ok a.served := by
  rw [hfilled.dimensions] at ha
  rcases CubeDescription.mem_dimensions.1 ha with ⟨dim, ordinal, hdim, rfl⟩ | ⟨-, rfl⟩
  · obtain ⟨hlt, -⟩ := List.getElem?_eq_some_iff.1 hdim
    exact Dimension.read_rowOf_served (quoteSegment_ne_empty _) hname
      (hlt.trans hcountable.dimensions)
  · exact Dimension.read_rowOf_served (quoteSegment_ne_empty "Measures") hname
      hcountable.dimensions

omit hname in
/-- A hierarchy has the unique name of its dimension. -/
theorem MemoryCube.Filled.of_mem_hierarchies {a : Hierarchy} (ha : a ∈ c.hierarchies) :
    a.label.uniqueName = a.dimension ∧ a.cubeName = d.name ∧ a.dimension ≠ "" := by
  obtain ⟨rest, hhierarchies, hrest⟩ := hfilled.hierarchies
  rw [hhierarchies] at ha
  rcases List.mem_append.1 ha with ha | ha
  · obtain ⟨dim, -, rfl⟩ := List.mem_map.1 ha
    exact ⟨rfl, rfl, quoteSegment_ne_empty _⟩
  · obtain ⟨-, rfl⟩ := hrest a ha
    exact ⟨rfl, rfl, quoteSegment_ne_empty "Measures"⟩

private theorem read_hierarchy {a : Hierarchy} (ha : a ∈ c.hierarchies) :
    Record.read (rowOf a) = .ok a.served := by
  obtain ⟨hunique, hcube, hne⟩ := hfilled.of_mem_hierarchies ha
  exact Hierarchy.read_rowOf_served (hunique ▸ hne) (hcube ▸ hname) hne

private theorem read_level (hcountable : d.Countable) (hbuilt : c.Built d) (hd : d.Apart)
    {dim : DimensionDescription} (hdim : dim ∈ d.dimensions) {l : Level}
    (hl : l ∈ c.levelsIn dim) : Record.read (rowOf l) = .ok l.served := by
  obtain ⟨hplace, hcardinality⟩ := hfilled.of_mem_levelsIn hd hdim hl
  obtain ⟨dimension, name, hunique, hdimension, hhierarchy⟩ :=
    hfilled.formed_of_mem_levelsIn hd hdim hl
  obtain ⟨hcube, -⟩ := hbuilt.dimension_eq (List.mem_filter.1 hl).1
  obtain ⟨_, depth, hget, hlevel⟩ := DimensionDescription.mem_toLevels.1 hplace
  obtain ⟨hlt, -⟩ := List.getElem?_eq_some_iff.1 hget
  have hdepth : l.depth = depth := congrArg Level.depth hlevel
  refine Level.read_rowOf_served (hunique ▸ quoteSegment_dot_ne_empty _ _) (hcube ▸ hname)
    (hdimension ▸ quoteSegment_ne_empty _) (hhierarchy ▸ quoteSegment_ne_empty _) ?_ ?_
  · exact hdepth ▸ hlt.trans (hcountable.levels dim hdim)
  · exact hcardinality.trans_lt hcountable.members

private theorem read_member (hcountable : d.Countable) (hbuilt : c.Built d) {a : Member}
    (ha : a ∈ c.members) : Record.read (rowOf a) = .ok a.served := by
  have hplaced := hbuilt.members a ha
  obtain ⟨l, hl, hmem⟩ := hfilled.exists_level ha
  obtain ⟨m, ordinal, hm, rfl⟩ := Level.mem_membersOf.1 hmem
  obtain ⟨dim, hdim, name, depth, hget, rfl⟩ :=
    CubeDescription.mem_toLevels.1 (mem_of_levelNamed? hl).1
  obtain ⟨hlt, -⟩ := List.getElem?_eq_some_iff.1 hget
  obtain ⟨hordinal, -⟩ := List.getElem?_eq_some_iff.1 hm
  refine Member.read_rowOf_served hplaced.uniqueName hname (quoteSegment_ne_empty _)
    (quoteSegment_ne_empty _) (quoteSegment_dot_ne_empty _ _)
    (hlt.trans (hcountable.levels dim hdim))
    ((hordinal.trans_le (List.length_filter_le _ _)).trans hcountable.members) ?_ rfl rfl rfl
  -- a parent is a member, and no member has an empty unique name
  intro hparent
  obtain ⟨-, p, hp, hpname, -⟩ := hplaced.parent "" hparent
  exact (hbuilt.members p hp).uniqueName hpname

end

/-! ### What engines list -/

/-- Whether what is listed for a cube are its objects in order. -/
structure Store.ListsBuilt (s : Store Unit) (answers : Request → Outcome RowSet)
    (d : CubeDescription) (c : MemoryCube) (x : Cube) : Prop where
  dimensions : s.answer answers (.dimensions x) = .ok (c.dimensions.map Dimension.served)
  hierarchies : ∀ o : Dimension, s.answer answers (.hierarchies x o)
    = .ok ((c.hierarchies.filter (·.dimension == o.label.uniqueName)).map Hierarchy.served)
  levels : ∀ dim ∈ d.dimensions, ∀ h : Hierarchy, h.dimension = quoteSegment dim.name →
    h.label.uniqueName = quoteSegment dim.name →
      s.answer answers (.levels x h) = .ok ((c.levelsIn dim).map Level.served)
  members : ∀ l : Level, l.Formed → s.answer answers (.members x l)
    = .ok ((c.members.filter (·.level == l.label.uniqueName)).map Member.served)
  /-- The measures belong to a level of their own. -/
  measures : ∃ measures : List Member, s.answer answers (.measures x) = .ok measures
    ∧ ∀ a ∈ measures, d.measures.isEmpty = false ∧ a.level = measuresLevel

namespace MemoryEngine

variable {c : MemoryCube} {d : CubeDescription} {config : Config} {cubes : List MemoryCube}

/-- The store of a connection to cubes in memory. -/
abbrev storeOf (config : Config) (cubes : List MemoryCube) : Store Unit :=
  ((ofCubes config.catalog config.schema cubes).connection config).store

/-- The answers of the engine of such a store. -/
abbrev answersOf (config : Config) (cubes : List MemoryCube) : Request → Outcome RowSet :=
  (ofCubes config.catalog config.schema cubes).answer

/-- The cube of a name is selected if no other one answers to the name. -/
private theorem selected_of_only (hcubes : cubes.filter (fun c' => isNamed c'.cube d.name) = [c])
    {r : Restrictions} (hcatalog : r.catalog = some config.catalog)
    (hschema : r.schema = some config.schema) (hcube : r.cube = some d.name) :
    ∃ cube, (ofCubes config.catalog config.schema cubes).selected r = [{ c with cube }] := by
  let registered : MemoryCube → MemoryCube := fun c' =>
    { c' with cube := { c'.cube with
        catalogName := config.catalog
        schemaName := config.schema } }
  have hselects : selects r ∘ registered = fun c' => isNamed c'.cube d.name := by
    funext c'
    simp only [Function.comp_apply, registered, selects, satisfies, hcatalog, hschema, hcube,
      beq_self_eq_true, Bool.true_and]
    rfl
  refine ⟨(registered c).cube, ?_⟩
  rw [selected, cubes_ofCubes, List.filter_map, hselects, hcubes]
  rfl

/-- **What is listed for the cube of a name** is what satisfies the restrictions, if all of this is
read back. -/
private theorem readAll_of_only (hcubes : cubes.filter (fun c' => isNamed c'.cube d.name) = [c])
    {r : Restrictions} (hcatalog : r.catalog = some config.catalog)
    (hschema : r.schema = some config.schema) (hcube : r.cube = some d.name) {α : Type} [Record α]
    {f : MemoryCube → List α} (hf : ∀ cube, f { c with cube } = f c) {objects : List α}
    (hobjects : (f c).filter (fun a => r.admits (rowOf a)) = objects) {served : α → α}
    (hread : ∀ a ∈ objects, Record.read (rowOf a) = .ok (served a)) :
    readAll α (rowsOf r (((ofCubes config.catalog config.schema cubes).selected r).flatMap f))
      = .ok (objects.map served) := by
  obtain ⟨cube, hselected⟩ := selected_of_only hcubes hcatalog hschema hcube
  rw [hselected, List.flatMap_singleton, hf, readAll_rowsOf, hobjects]
  intro a ha hadmits
  exact hread a (hobjects ▸ List.mem_filter.2 ⟨ha, hadmits⟩)

/-- The same for what is sorted after it has been read, if it is in order already. -/
private theorem sortBy_readAll_of_only
    (hcubes : cubes.filter (fun c' => isNamed c'.cube d.name) = [c])
    {r : Restrictions} (hcatalog : r.catalog = some config.catalog)
    (hschema : r.schema = some config.schema) (hcube : r.cube = some d.name) {α : Type} [Record α]
    {f : MemoryCube → List α} (hf : ∀ cube, f { c with cube } = f c) {objects : List α}
    (hobjects : (f c).filter (fun a => r.admits (rowOf a)) = objects) {served : α → α}
    (hread : ∀ a ∈ objects, Record.read (rowOf a) = .ok (served a)) {key : α → Nat}
    (hkey : ∀ a, key (served a) = key a) (hsorted : (objects.map key).Pairwise (· ≤ ·)) :
    sortBy (fun a b => key a ≤ key b) <$> readAll α
        (rowsOf r (((ofCubes config.catalog config.schema cubes).selected r).flatMap f))
      = .ok (objects.map served) := by
  rw [readAll_of_only hcubes hcatalog hschema hcube hf hobjects hread]
  refine congrArg Except.ok (sortBy_of_pairwise ?_)
  refine List.pairwise_map.2 ((List.pairwise_map.1 hsorted).imp fun {a b} h => ?_)
  rw [hkey, hkey]
  exact decide_eq_true h

variable (hname : d.name ≠ "") (hfilled : c.Filled d)
  (hcubes : cubes.filter (fun c' => isNamed c'.cube d.name) = [c])
  {x : Cube} (hx : x.label.name = d.name)

include hname hfilled hcubes hx

/-- **The dimensions that are listed.** -/
private theorem answer_dimensions (hcountable : d.Countable) :
    (storeOf config cubes).answer (answersOf config cubes) (.dimensions x)
      = .ok (c.dimensions.map Dimension.served) := by
  refine sortBy_readAll_of_only (f := MemoryCube.dimensions) hcubes rfl rfl (congrArg some hx)
    (fun _ => rfl) ?_ (fun a ha => read_dimension hname hfilled hcountable ha) (fun _ => rfl) ?_
  · refine List.filter_eq_self.2 fun a ha => ?_
    rw [admits_dimension, hx, beq_iff_eq]
    rw [hfilled.dimensions] at ha
    rcases CubeDescription.mem_dimensions.1 ha with ⟨_, _, -, rfl⟩ | ⟨-, rfl⟩ <;> rfl
  · rw [hfilled.dimensions, CubeDescription.map_ordinal_dimensions]
    exact List.pairwise_le_range

/-- **The hierarchies of a dimension that are listed.** -/
private theorem answer_hierarchies (o : Dimension) :
    (storeOf config cubes).answer (answersOf config cubes) (.hierarchies x o)
      = .ok ((c.hierarchies.filter (·.dimension == o.label.uniqueName)).map Hierarchy.served) := by
  refine readAll_of_only hcubes rfl rfl (congrArg some hx) (fun _ => rfl) ?_ fun a ha =>
    read_hierarchy hname hfilled (List.mem_filter.1 ha).1
  refine List.filter_congr fun a ha => ?_
  obtain ⟨-, hcube, -⟩ := hfilled.of_mem_hierarchies ha
  rw [admits_hierarchy, hx, hcube, beq_self_eq_true, Bool.true_and]

/-- **The levels of a hierarchy that are listed.** -/
private theorem answer_levels (hcountable : d.Countable) (hbuilt : c.Built d) (hd : d.Apart)
    {dim : DimensionDescription} (hdim : dim ∈ d.dimensions) {h : Hierarchy}
    (hdimension : h.dimension = quoteSegment dim.name)
    (hunique : h.label.uniqueName = quoteSegment dim.name) :
    (storeOf config cubes).answer (answersOf config cubes) (.levels x h)
      = .ok ((c.levelsIn dim).map Level.served) := by
  refine sortBy_readAll_of_only (f := MemoryCube.levels) hcubes rfl rfl (congrArg some hx)
    (fun _ => rfl) ?_ (fun l hl => read_level hname hfilled hcountable hbuilt hd hdim hl)
    (fun _ => rfl) ?_
  · refine List.filter_congr fun l hl => ?_
    obtain ⟨hcube, hsame⟩ := hbuilt.dimension_eq hl
    rw [admits_level, hx, hcube, hdimension, hunique, hsame, beq_self_eq_true, Bool.true_and,
      Bool.and_self]
  · rw [hfilled.map_depth_levelsIn hd hdim]
    exact List.pairwise_le_range

/-- **The members of a level that are listed.** -/
private theorem answer_members (hcountable : d.Countable) (hbuilt : c.Built d) {l : Level}
    (hl : l.Formed) :
    (storeOf config cubes).answer (answersOf config cubes) (.members x l)
      = .ok ((c.members.filter (·.level == l.label.uniqueName)).map Member.served) := by
  refine sortBy_readAll_of_only (f := MemoryCube.members) hcubes rfl rfl (congrArg some hx)
    (fun _ => rfl) ?_ (fun a ha => read_member hname hfilled hcountable hbuilt
      (List.mem_filter.1 ha).1) (fun _ => rfl) ?_
  -- what is in the level is also in its hierarchy, its dimension and its cube
  · refine List.filter_congr fun a ha => ?_
    obtain ⟨l', hl', hmem⟩ := hfilled.exists_level ha
    obtain ⟨hmem', hunique⟩ := mem_of_levelNamed? hl'
    have hformed := CubeDescription.formed_of_mem_toLevels hmem'
    obtain ⟨m, ordinal, -, rfl⟩ := Level.mem_membersOf.1 hmem
    rw [admits_member, hx]
    by_cases hlevel : (l'.toMember m ordinal).level = l.label.uniqueName
    · obtain ⟨hdimension, hhierarchy⟩ := hformed.same hl (hunique.trans hlevel)
      obtain ⟨_, _, _, _, _, rfl⟩ := CubeDescription.mem_toLevels.1 hmem'
      refine Bool.eq_iff_iff.2 (iff_of_true ?_ (beq_iff_eq.2 hlevel))
      simp only [Bool.and_eq_true, beq_iff_eq]
      exact ⟨rfl, hdimension, hhierarchy, hlevel⟩
    · rw [beq_false_of_ne hlevel, Bool.and_false, Bool.and_false, Bool.and_false]
  · rw [hfilled.members]
    cases levelNamed? l.label.uniqueName d.toLevels with
    | none => exact .nil
    | some l' =>
      exact List.pairwise_map.2 Level.sorted_membersOf

/-- **The measures that are listed** belong to a level of their own. -/
private theorem answer_measures (hbuilt : c.Built d) : ∃ measures : List Member,
    (storeOf config cubes).answer (answersOf config cubes) (.measures x) = .ok measures
      ∧ ∀ a ∈ measures, d.measures.isEmpty = false ∧ a.level = measuresLevel := by
  have hexists : ∃ measures, readMeasures (measureRowSet c.measures) = .ok measures := by
    refine exists_readMeasures fun a ha ordinal => ?_
    have ha' := hbuilt.measures a ha
    exact exists_readMeasure_iff.2 ⟨.inr ha'.uniqueName_ne_empty, ha'.cubeName ▸ hname⟩
  obtain ⟨measures, hmeasures⟩ := hexists
  refine ⟨measures, ?_, ?_⟩
  · obtain ⟨cube, hselected⟩ := @selected_of_only c d config cubes hcubes
      ((storeOf config cubes).restrictions (.measures x)) rfl rfl (congrArg some hx)
    have hlist : (measureRowSet (((ofCubes config.catalog config.schema cubes).selected
        ((storeOf config cubes).restrictions (.measures x))).flatMap MemoryCube.measures)).filter
          ((storeOf config cubes).restrictions (.measures x)).admits
        = measureRowSet c.measures := by
      rw [hselected, List.flatMap_singleton]
      refine filter_measureRowSet fun a ha => ?_
      rw [admits_measure, hx, beq_iff_eq]
      exact (hbuilt.measures a ha).cubeName
    exact (congrArg readMeasures hlist).trans hmeasures
  · intro a ha
    obtain ⟨b, hb, ordinal, hread⟩ :=
      exists_left_of_forall₂ (forall₂_readMeasures_measureRowSet hmeasures) ha
    obtain ⟨hnonempty, hlevel⟩ := hfilled.measures b hb
    have htext : (measureRowOf b).text? Column.levelUniqueName = presence b.level := rfl
    rw [level_of_readMeasure hread, htext, hlevel]
    exact ⟨hnonempty, rfl⟩

omit hname hfilled in
/-- **What engines in memory list for a cube are its objects in order.** -/
theorem listsBuilt (hbuild : d.build = .ok c) (hname : d.name ≠ "") (hd : d.Apart)
    (hcountable : d.Countable) :
    (storeOf config cubes).ListsBuilt (answersOf config cubes) d c x := by
  have hbuilt := CubeDescription.built hbuild
  have hfilled := CubeDescription.filled hbuild
  refine ⟨?_, ?_, ?_, ?_, ?_⟩
  · exact answer_dimensions hname hfilled hcubes hx hcountable
  · exact answer_hierarchies hname hfilled hcubes hx
  · exact fun dim hdim h => answer_levels hname hfilled hcubes hx hcountable hbuilt hd hdim
  · exact fun l hl => answer_members hname hfilled hcubes hx hcountable hbuilt hl
  · exact answer_measures hname hfilled hcubes hx hbuilt

end MemoryEngine

end Datacube
