import Datacube.Proofs.Listings
import Datacube.Proofs.Yields
import Datacube.Query.Evaluate

/-!
# What is served is what is declared

A store over an engine in memory lists the dimensions, hierarchies, levels and members of a cube as
its description declares them, whatever the store keeps from earlier inquiries.  So all members of
a dimension are the declared ones, level by level.

## Main definitions

* `CubeDescription.Named` — whether names are not empty.
* `CubeDescription.Asks` — what a store is asked about declared objects.
* `Expr.Denotes` — whether an expression is a dimension or an identifier that names it.

## Main results

* `MemoryEngine.listsDeclared` — **what the engine lists**.
* `Store.yields_evaluate_members` — all members of a dimension.
* `MemoryEngine.serves_declared` — **what is served is what is declared**.
-/

namespace Datacube

/-! ### Descriptions -/

namespace CubeDescription

/-- Whether no name of a cube, a dimension, a level or a member is empty. -/
structure Named (d : CubeDescription) : Prop where
  name : d.name ≠ ""
  dimensions : ∀ dim ∈ d.dimensions, dim.name ≠ ""
  levels : ∀ dim ∈ d.dimensions, ∀ name ∈ dim.levels, name ≠ ""
  members : ∀ m ∈ d.members, m.name ≠ ""

/-- What a store is asked about the objects that a description declares. -/
inductive Asks (d : CubeDescription) : Inquiry → Prop
  | dimensions {x : Cube} : x.label.name = d.name → d.Asks (.dimensions x)
  | measures {x : Cube} : x.label.name = d.name → d.Asks (.measures x)
  | hierarchies {x : Cube} {o : Dimension} {dim : DimensionDescription} : x.label.name = d.name →
    dim ∈ d.dimensions → o.label.uniqueName = quoteSegment dim.name → d.Asks (.hierarchies x o)
  | levels {x : Cube} {dim : DimensionDescription} : x.label.name = d.name →
    dim ∈ d.dimensions → d.Asks (.levels x (dim.toHierarchy d.name))
  | members {x : Cube} {l : Level} : x.label.name = d.name →
    l ∈ d.toLevels → d.Asks (.members x (l.counted d.members))

/-- Whether what was asked in the slots of declared objects was about these objects. -/
def Undisturbed (d : CubeDescription) (asked : List Inquiry) : Prop :=
  ∀ q' ∈ asked, ∀ q, d.Asks q → q'.slot = q.slot → q'.Agrees q

variable {d : CubeDescription}

/-- **Declared objects do not share slots.** -/
theorem Asks.agrees (hd : d.Distinct) {q' q : Inquiry} (hq' : d.Asks q') (hq : d.Asks q)
    (hslot : q'.slot = q.slot) : q'.Agrees q := by
  have hkey : HEq q'.key q.key := (Sigma.mk.inj hslot).2
  cases hq' <;> cases hq <;> try trivial
  case levels.levels => exact (Prod.mk.inj (eq_of_heq hkey)).2
  case members.members l' _ hl' _ l _ hl =>
    have hunique : l'.label.uniqueName = l.label.uniqueName := (Prod.mk.inj (eq_of_heq hkey)).2
    rw [hd.level_eq hl' hl hunique]
    exact ⟨rfl, rfl⟩

end CubeDescription

/-! ### Objects that are served as they are -/

section

variable {d : CubeDescription} (hnamed : d.Named)

include hnamed

private theorem map_served_dimensions :
    (d.toDimensions ++ d.measuresDimensions).map Dimension.served
      = d.toDimensions ++ d.measuresDimensions := by
  refine (List.map_congr_left fun a ha => ?_).trans (List.map_id _)
  refine Dimension.served_of_complete ?_
  rcases CubeDescription.mem_dimensions.1 ha with ⟨dim, ordinal, hdim, rfl⟩ | ⟨-, rfl⟩
  · exact Label.complete_ofName (quoteSegment_ne_empty _)
      (hnamed.dimensions dim (List.mem_of_getElem? hdim))
  · exact Label.complete_ofName (by decide) (by decide)

private theorem served_toHierarchy {dim : DimensionDescription} (hdim : dim ∈ d.dimensions) :
    (dim.toHierarchy d.name).served = dim.toHierarchy d.name :=
  Hierarchy.served_of_complete
    (Label.complete_ofName (quoteSegment_ne_empty _) (hnamed.dimensions dim hdim))

private theorem served_counted {l : Level} (hl : l ∈ d.toLevels) :
    (l.counted d.members).served = l.counted d.members := by
  obtain ⟨dim, hdim, name, depth, hname, rfl⟩ := CubeDescription.mem_toLevels.1 hl
  exact Level.served_of_complete (Label.complete_ofName (quoteSegment_dot_ne_empty _ _)
    (hnamed.levels dim hdim name (List.mem_of_getElem? hname)))

private theorem served_member {c : MemoryCube} (hbuilt : c.Built d) {l : Level} {a : Member}
    (hmem : a ∈ c.members) (ha : a ∈ l.membersOf d.members) : a.served = a := by
  have hplaced := hbuilt.members a hmem
  obtain ⟨m, ordinal, hm, rfl⟩ := Level.mem_membersOf.1 ha
  exact Member.served_of_complete (Label.complete_ofName hplaced.uniqueName
    (hnamed.members m (List.mem_filter.1 (List.mem_of_getElem? hm)).1))

end

/-! ### All members of a dimension -/

/-- Whether an expression is a dimension, or an identifier of a single segment that names it before
any other one of the given dimensions, and that the query does not define. -/
inductive Expr.Denotes (dimensions : List Dimension) (ctx : Context) (o : Dimension) : Expr → Prop
  | object : Denotes dimensions ctx o (.object (.dimension o))
  | identifier {i : Identifier} {segment : String} : ctx.member? i.uniqueName = none →
    ctx.set? i.uniqueName = none → i.segments = [segment] →
    dimensions.find? (isNamed · segment) = some o → Denotes dimensions ctx o (.identifier i)

namespace Store

variable {d : CubeDescription} {s : Store Unit} {answers : Request → Outcome RowSet}

/-- Whether what is listed for a cube is what a description declares. -/
structure ListsDeclared (s : Store Unit) (answers : Request → Outcome RowSet) (d : CubeDescription)
    (x : Cube) : Prop where
  dimensions : s.answer answers (.dimensions x) = .ok (d.toDimensions ++ d.measuresDimensions)
  hierarchies : ∀ dim ∈ d.dimensions, ∀ o : Dimension, o.label.uniqueName = quoteSegment dim.name →
    s.answer answers (.hierarchies x o) = .ok [dim.toHierarchy d.name]
  levels : ∀ dim ∈ d.dimensions, s.answer answers (.levels x (dim.toHierarchy d.name))
    = .ok ((dim.toLevels d.name).map (·.counted d.members))
  members : ∀ l ∈ d.toLevels, s.answer answers (.members x (l.counted d.members))
    = .ok (l.membersOf d.members)
  measures : ∃ measures : List Member, s.answer answers (.measures x) = .ok measures
    ∧ ∀ a ∈ measures, a.level = measuresLevel

section

variable (hs : s.engine = .ofAnswers answers) (hd : d.Distinct) {x : Cube}
  (hx : x.label.name = d.name) (hlists : s.ListsDeclared answers d x)

omit hx hlists in
include hs hd in
private theorem yields_asked {q : Inquiry} (hq : d.Asks q) {items : List q.listing.Item}
    (h : s.answer answers q = .ok items) :
    Session.Yields (s.Faithful answers d.Asks) (s.list q) (.ok items) :=
  yields_list hs (fun _ _ hq' hq => hq'.agrees hd hq) hq h

include hs hd hx hlists

theorem yields_dimensions : Session.Yields (s.Faithful answers d.Asks)
    (s.provider.dimensions x) (.ok (d.toDimensions ++ d.measuresDimensions)) := by
  change Session.Yields _ (s.dimensions x) _
  rw [dimensions_eq_list]
  exact yields_asked hs hd (.dimensions hx) hlists.dimensions

theorem yields_hierarchies {dim : DimensionDescription} (hdim : dim ∈ d.dimensions) {o : Dimension}
    (ho : o.label.uniqueName = quoteSegment dim.name) :
    Session.Yields (s.Faithful answers d.Asks) (s.provider.hierarchies x o)
      (.ok [dim.toHierarchy d.name]) :=
  yields_asked hs hd (.hierarchies hx hdim ho) (hlists.hierarchies dim hdim o ho)

theorem yields_levels {dim : DimensionDescription} (hdim : dim ∈ d.dimensions) :
    Session.Yields (s.Faithful answers d.Asks)
      (s.provider.levels x (dim.toHierarchy d.name))
      (.ok ((dim.toLevels d.name).map (·.counted d.members))) := by
  change Session.Yields _ (s.levels x _) _
  rw [levels_eq_list]
  exact yields_asked hs hd (.levels hx hdim) (hlists.levels dim hdim)

theorem yields_members {l : Level} (hl : l ∈ d.toLevels) :
    Session.Yields (s.Faithful answers d.Asks) (s.provider.members x (l.counted d.members))
      (.ok (l.membersOf d.members)) := by
  change Session.Yields _ (s.members x _) _
  rw [members_eq_list]
  exact yields_asked hs hd (.members hx hl) (hlists.members l hl)

/-- No declared level holds the measures. -/
theorem yields_levelMembers {l : Level} (hl : l ∈ d.toLevels) :
    Session.Yields (s.Faithful answers d.Asks)
      (s.provider.levelMembers x (l.counted d.members)) (.ok (l.membersOf d.members)) := by
  obtain ⟨measures, hmeasures, hlevel⟩ := hlists.measures
  have hnone : measures.filter
      (fun a => a.level == (l.counted d.members).label.uniqueName) = [] := by
    refine List.filter_eq_nil_iff.2 fun a ha => ?_
    rw [hlevel a ha, beq_iff_eq]
    exact (hd.ne_measuresLevel hl).symm
  refine Session.yields_bind (yields_asked hs hd (.measures hx) hmeasures) ?_
  rw [hnone]
  exact yields_members hs hd hx hlists hl

/-- **All members of a hierarchy**, level by level. -/
theorem yields_hierarchyMembers {dim : DimensionDescription} (hdim : dim ∈ d.dimensions) :
    Session.Yields (s.Faithful answers d.Asks)
      (s.provider.hierarchyMembers x (dim.toHierarchy d.name))
      (.ok (d.membersIn dim)) := by
  refine Session.yields_bind (yields_levels hs hd hx hlists hdim) ?_
  rw [CubeDescription.membersIn, List.flatMap_def]
  refine Session.yields_return (Session.yields_mapM ?_) List.flatten
  rw [List.forall₂_map_left_iff, List.forall₂_map_right_iff]
  refine List.forall₂_same.2 fun l hl => ?_
  exact yields_levelMembers hs hd hx hlists (CubeDescription.mem_toLevels_of_mem hdim hl)

/-- **All members of a dimension**, level by level. -/
theorem yields_dimensionMembers {dim : DimensionDescription} (hdim : dim ∈ d.dimensions)
    {o : Dimension} (ho : o.label.uniqueName = quoteSegment dim.name) :
    Session.Yields (s.Faithful answers d.Asks) (s.provider.dimensionMembers x o)
      (.ok (d.membersIn dim)) := by
  refine Session.yields_bind (yields_hierarchies hs hd hx hlists hdim ho) ?_
  have hmembers := Session.yields_return (Session.yields_mapM
    (.cons (yields_hierarchyMembers hs hd hx hlists hdim) .nil)) List.flatten
  rwa [List.flatten_singleton] at hmembers

/-- An identifier of a single segment resolves to the first dimension that it names. -/
theorem yields_resolve {i : Identifier} {ctx : Context} {segment : String} {o : Dimension}
    (hcube : ctx.cube = some x) (hmember : ctx.member? i.uniqueName = none)
    (hset : ctx.set? i.uniqueName = none) (hsegments : i.segments = [segment])
    (hfind : (d.toDimensions ++ d.measuresDimensions).find? (isNamed · segment) = some o) :
    Session.Yields (s.Faithful answers d.Asks) (s.provider.resolve i ctx)
      (.ok (.object (.dimension o))) := by
  have hrequire : (ctx.requireCube : Session Unit Cube) = pure x := by
    rw [Context.requireCube, hcube]
  have hchildren : Session.Yields (s.Faithful answers d.Asks)
      (s.provider.children x (.cube x))
      (.ok ((d.toDimensions ++ d.measuresDimensions).map .dimension)) :=
    Session.yields_return (yields_dimensions hs hd hx hlists) _
  have hfound : ((d.toDimensions ++ d.measuresDimensions).map SchemaObject.dimension).find?
      (fun child => child.isNamed segment) = some (.dimension o) := by
    rw [List.find?_map]
    exact congrArg (Option.map _) hfind
  have hobject : Session.Yields (s.Faithful answers d.Asks)
      (s.provider.resolveObject x i) (.ok (.dimension o)) := by
    have hstep : Session.Yields (s.Faithful answers d.Asks)
        (s.provider.find x (.cube x) segment) (.ok (some (.dimension o))) := by
      refine Session.yields_bind hchildren ?_
      simp only [hfound]
      exact Session.yields_pure _
    rw [Provider.resolveObject, hsegments]
    exact Session.yields_bind hstep (Session.yields_pure _)
  rw [Provider.resolve, hmember, hset, hrequire]
  refine Session.yields_bind (Session.yields_pure x) ?_
  exact Session.yields_return hobject _

theorem yields_evaluate {e : Expr} {ctx : Context} {o : Dimension} (hcube : ctx.cube = some x)
    (he : e.Denotes (d.toDimensions ++ d.measuresDimensions) ctx o) :
    Session.Yields (s.Faithful answers d.Asks) (s.provider.evaluate e ctx)
      (.ok (.object (.dimension o))) := by
  cases he with
  | object => exact Session.yields_pure _
  | identifier hmember hset hsegments hfind =>
    exact yields_resolve hs hd hx hlists hcube hmember hset hsegments hfind

/-- **The set of all members of a dimension.** -/
theorem yields_evaluate_members {name : String} {form : CallForm} {e : Expr} {ctx : Context}
    {dim : DimensionDescription} (hdim : dim ∈ d.dimensions) {o : Dimension}
    (ho : o.label.uniqueName = quoteSegment dim.name) (hname : lowerCase name = "members")
    (hcube : ctx.cube = some x) (he : e.Denotes (d.toDimensions ++ d.measuresDimensions) ctx o) :
    Session.Yields (s.Faithful answers d.Asks)
      (s.provider.evaluate (.call name form [e]) ctx)
      (.ok (.set ((d.membersIn dim).map fun a => .object (.member a)))) := by
  have hcall : s.provider.evaluate (.call name form [e])
      = s.provider.membersOf ⟨e, s.provider.evaluate e⟩ := by
    rw [Provider.evaluate, Provider.arguments, Provider.arguments]
    unfold Provider.apply
    rw [hname]
    rfl
  have hrequire : (ctx.requireCube : Session Unit Cube) = pure x := by
    rw [Context.requireCube, hcube]
  rw [hcall, Provider.membersOf, hrequire]
  refine Session.yields_bind (Session.yields_pure x) ?_
  refine Session.yields_bind (yields_evaluate hs hd hx hlists hcube he) ?_
  exact Session.yields_return (yields_dimensionMembers hs hd hx hlists hdim ho) _

end

end Store

/-! ### Connections -/

namespace MemoryEngine

variable {c : MemoryCube} {d : CubeDescription} {config : Config} {cubes : List MemoryCube}

/-- The levels of a dimension have the declared numbers of members. -/
private theorem levelsIn_eq (hfilled : c.Filled d) (hdeclared : c.Declared d) (hd : d.Distinct)
    {dim : DimensionDescription} (hdim : dim ∈ d.dimensions) :
    c.levelsIn dim = (dim.toLevels d.name).map (·.counted d.members) := by
  have hcounted : ∀ l ∈ c.levelsIn dim, l.place.counted d.members = l := by
    intro l hl
    obtain ⟨rest, hlevels, hrest⟩ := hdeclared.levels
    obtain ⟨hmem, hhierarchy⟩ := List.mem_filter.1 hl
    rw [hlevels] at hmem
    rcases List.mem_append.1 hmem with hmem | hmem
    · obtain ⟨_, -, rfl⟩ := List.mem_map.1 hmem
      rfl
    -- the level of the measures is in no declared dimension
    · obtain rfl := hrest l hmem
      have hquote : quoteSegment "Measures" = quoteSegment dim.name := eq_of_beq hhierarchy
      exact absurd (List.mem_map.2 ⟨dim, hdim, (quoteSegment_inj hquote).symm⟩) hd.measures
  rw [← hfilled.map_place_levelsIn hd.apart hdim, List.map_map]
  exact ((List.map_congr_left hcounted).trans (List.map_id _)).symm

/-- **What engines in memory list for a cube is what its description declares.** -/
theorem listsDeclared (hbuild : d.build = .ok c) (hnamed : d.Named) (hdistinct : d.Distinct)
    (hcountable : d.Countable) (hcubes : cubes.filter (fun c' => isNamed c'.cube d.name) = [c])
    {x : Cube} (hx : x.label.name = d.name) :
    (storeOf config cubes).ListsDeclared (answersOf config cubes) d x := by
  have hbuilt := CubeDescription.built hbuild
  have hfilled := CubeDescription.filled hbuild
  have hdeclared := CubeDescription.declared hbuild hdistinct
  have hlists : (storeOf config cubes).ListsBuilt (answersOf config cubes) d c x :=
    listsBuilt hcubes hx hbuild hnamed.name hdistinct.apart hcountable
  refine ⟨?_, ?_, ?_, ?_, ?_⟩
  · have hserved : c.dimensions.map Dimension.served = d.toDimensions ++ d.measuresDimensions := by
      rw [hdeclared.dimensions, map_served_dimensions hnamed]
    exact hlists.dimensions.trans (congrArg Except.ok hserved)
  · intro dim hdim o ho
    have hserved : (c.hierarchies.filter (·.dimension == o.label.uniqueName)).map Hierarchy.served
        = [dim.toHierarchy d.name] := by
      rw [ho, hfilled.hierarchies_of_dimension hdistinct.apart hdim, List.map_singleton,
        served_toHierarchy hnamed hdim]
    exact (hlists.hierarchies o).trans (congrArg Except.ok hserved)
  · intro dim hdim
    have hserved : (c.levelsIn dim).map Level.served
        = (dim.toLevels d.name).map (·.counted d.members) := by
      rw [levelsIn_eq hfilled hdeclared hdistinct hdim, List.map_map]
      exact List.map_congr_left fun l hl =>
        served_counted hnamed (CubeDescription.mem_toLevels_of_mem hdim hl)
    exact (hlists.levels dim hdim _ rfl rfl).trans (congrArg Except.ok hserved)
  · intro l hl
    have hmembers := hdeclared.members l hl
    have hformed : l.Formed := CubeDescription.formed_of_mem_toLevels hl
    have hserved : (c.members.filter (·.level == l.label.uniqueName)).map Member.served
        = l.membersOf d.members := by
      rw [hmembers]
      refine (List.map_congr_left fun a ha => ?_).trans (List.map_id _)
      exact served_member hnamed hbuilt (List.mem_filter.1 (hmembers ▸ ha)).1 ha
    exact (hlists.members _ hformed).trans (congrArg Except.ok hserved)
  · obtain ⟨measures, hmeasures, hlevel⟩ := hlists.measures
    exact ⟨measures, hmeasures, fun a ha => (hlevel a ha).2⟩

/-- **What is served is what is declared.**  A cube is built from a description in which names are
not empty and tell dimensions and levels apart, and an engine in memory serves it; no other cube
answers to its name.  Then the dimensions are the declared ones in order, followed by the measures
dimension if and only if there is a measure.  Every declared dimension has its one hierarchy.  The
levels of this hierarchy are the declared ones from the root downwards, and each has as many members
as are declared for it.  Its members are the declared ones in order, as they were built.  So the
members of a dimension evaluate to all members that it has, each of them once, level by level.
This is true after any uses of the connection that evaluate no statement, and that are about these
objects or have other slots. -/
theorem serves_declared (hbuild : d.build = .ok c) (hnamed : d.Named) (hdistinct : d.Distinct)
    (hcountable : d.Countable) (hcubes : cubes.filter (fun c' => isNamed c'.cube d.name) = [c])
    {calls : List Call} (hcalls : ∀ call ∈ calls, call.evaluates = false)
    (hundisturbed : d.Undisturbed (Call.recent calls)) {x : Cube} (hx : x.label.name = d.name) :
    let u := ((ofCubes config.catalog config.schema cubes).connection config).after calls
    (u.run (·.dimensions x)).1 = .ok (d.toDimensions ++ d.measuresDimensions)
    ∧ ∀ dim ∈ d.dimensions,
      (∀ o : Dimension, o.label.uniqueName = quoteSegment dim.name →
        (u.run (·.hierarchies x o)).1 = .ok [dim.toHierarchy d.name])
      ∧ (u.run (·.levels x (dim.toHierarchy d.name))).1
        = .ok ((dim.toLevels d.name).map (·.counted d.members))
      ∧ (∀ l ∈ dim.toLevels d.name,
        (u.run (·.members x (l.counted d.members))).1 = .ok (l.membersOf d.members)
          ∧ l.membersOf d.members = c.members.filter (·.level == l.label.uniqueName))
      ∧ (∀ name form e ctx o, lowerCase name = "members" → ctx.cube = some x →
        e.Denotes (d.toDimensions ++ d.measuresDimensions) ctx o →
          o.label.uniqueName = quoteSegment dim.name →
            (u.run (·.provider.evaluate (.call name form [e]) ctx)).1
              = .ok (.set ((d.membersIn dim).map fun a => .object (.member a))))
      ∧ (d.membersIn dim).Nodup
      ∧ ∀ a, a ∈ d.membersIn dim ↔ a ∈ c.members ∧ a.dimension = quoteSegment dim.name := by
  intro u
  have hbuilt := CubeDescription.built hbuild
  have hdeclared := CubeDescription.declared hbuild hdistinct
  have hlists : (storeOf config cubes).ListsDeclared (answersOf config cubes) d x :=
    listsDeclared hbuild hnamed hdistinct hcountable hcubes hx
  have houtcome : ∀ {α : Type} {use : Store Unit → Session Unit α} {result : Outcome α},
      Session.Yields ((storeOf config cubes).Faithful (answersOf config cubes) d.Asks)
        (use (storeOf config cubes)) result → (u.run use).1 = result :=
    Connection.outcome_of_yields rfl rfl hcalls hundisturbed
  refine ⟨houtcome (Store.yields_dimensions rfl hdistinct hx hlists), ?_⟩
  intro dim hdim
  refine ⟨?_, ?_, ?_, ?_, hdistinct.nodup_membersIn hdim, ?_⟩
  · intro o ho
    exact houtcome (Store.yields_hierarchies rfl hdistinct hx hlists hdim ho)
  · exact houtcome (Store.yields_levels rfl hdistinct hx hlists hdim)
  · intro l hl
    have hl' := CubeDescription.mem_toLevels_of_mem hdim hl
    exact ⟨houtcome (Store.yields_members rfl hdistinct hx hlists hl'),
      (hdeclared.members l hl').symm⟩
  · intro name form e ctx o hname hcube he ho
    exact houtcome (Store.yields_evaluate_members rfl hdistinct hx hlists hdim ho hname hcube he)
  · exact fun a => hdeclared.mem_membersIn hbuilt hdistinct hdim

set_option maxRecDepth 100000 in
/-- The places of the sales after some uses of a connection. -/
theorem serves_declared_sales :
    let country : Level := ⟨.ofName "[Geo].[Country]" "Country", "Sales", "[Geo]", "[Geo]", 0, 2⟩
    let calls : List Call := [.cube "Sales", .members salesCube.cube country]
    let ctx : Context := .ofCube salesCube.cube
    let u := ((ofCubes "LdCatalog" "LdSchema" [salesCube]).connection {}).after calls
    (u.run (·.dimensions salesCube.cube)).1
        = .ok (sales.toDimensions ++ [measuresDimensionOf "Sales" 2])
      ∧ (u.run (·.members salesCube.cube country)).1
        = .ok (salesCube.members.filter (·.level == "[Geo].[Country]"))
      ∧ (u.run (·.provider.evaluate (.call "Members" .property [named ["Geo"]]) ctx)).1
        = .ok (.set ((sales.membersIn ⟨"Geo", .other, ["Country", "City"]⟩).map
          fun a => .object (.member a))) := by
  intro country calls ctx u
  let geo : DimensionDescription := ⟨"Geo", .other, ["Country", "City"]⟩
  have hnamed : sales.Named := by constructor <;> decide +kernel
  have hdistinct : sales.Distinct := by constructor <;> decide +kernel
  have hcountable : sales.Countable := by constructor <;> decide +kernel
  have hname : salesCube.cube.label.name = sales.name := by decide +kernel
  have hcubes : [salesCube].filter (fun c' => isNamed c'.cube sales.name) = [salesCube] :=
    List.filter_eq_self.2 (List.forall_mem_singleton.2 (by decide +kernel))
  have hcalls : ∀ call ∈ calls, call.evaluates = false := by
    refine List.forall_mem_cons.2 ⟨rfl, List.forall_mem_singleton.2 rfl⟩
  have hlevel : geo.toLevel "Sales" "Country" 0 ∈ geo.toLevels "Sales" := List.mem_cons_self
  have hcountry : country = (geo.toLevel "Sales" "Country" 0).counted sales.members := by
    decide +kernel
  have hundisturbed : sales.Undisturbed (Call.recent calls) := by
    refine List.forall_mem_cons.2 ⟨?_, List.forall_mem_singleton.2 ?_⟩
    · intro q _ _
      trivial
    · intro q hq hslot
      have hasked : sales.Asks (.members salesCube.cube country) :=
        hcountry ▸ .members hname (CubeDescription.mem_toLevels_of_mem List.mem_cons_self hlevel)
      exact hasked.agrees hdistinct hq hslot
  obtain ⟨hdimensions, hall⟩ := @serves_declared salesCube sales {} [salesCube] build_sales
    hnamed hdistinct hcountable hcubes calls hcalls hundisturbed _ hname
  obtain ⟨-, -, hmembers, hevaluate, -⟩ := hall geo List.mem_cons_self
  obtain ⟨hserved, hbuilt⟩ := hmembers _ hlevel
  have hunique : (geo.toLevel "Sales" "Country" 0).label.uniqueName = "[Geo].[Country]" := by
    decide +kernel
  rw [hunique] at hbuilt
  refine ⟨hdimensions, ?_, ?_⟩
  · rw [hcountry]
    exact hserved.trans (congrArg Except.ok hbuilt)
  · refine hevaluate "Members" .property (named ["Geo"]) ctx (geo.toDimension "Sales" 0)
      (by decide +kernel) rfl ?_ rfl
    exact .identifier rfl rfl rfl (by decide +kernel)

end MemoryEngine

end Datacube
