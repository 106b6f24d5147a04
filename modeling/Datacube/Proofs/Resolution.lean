import Datacube.Proofs.CellAccess
import Datacube.Proofs.RollUps
import Datacube.Proofs.Searches
import Datacube.Proofs.UniqueNames
import Datacube.Query.Evaluate

/-!
# Unique names that lead to their members

The unique name of a member lists the names of its dimension, of the members above it and its own.
An identifier with this unique name is resolved by a search for these names, one after the other.
The search stops at the first object that answers to a name, so it leads to the member unless
something else is met before.

## Main definitions

* `MemoryCube.Unobstructed` — whether nothing else is met on the way to a member.

## Main results

* `Store.yields_find_root`, `Store.yields_find_below` — **one step** of a search.
* `Store.exists_way` — **all steps** to a member.
* `MemoryEngine.resolves_uniqueName` — **unique names lead to their members**.
* `MemoryEngine.not_resolves_uniqueName` — **something else may be met before a member**.
-/

namespace Datacube

namespace MemoryCube

/-- Whether nothing else is met on the way to a member.  An identifier is trimmed segment by segment,
so this also asks that no name on the way has blanks at its ends. -/
structure Unobstructed (c : MemoryCube) (m : Member) : Prop where
  /-- The dimension is the first one that answers to its name, which is read as it was written. -/
  dimension : ∃ o, c.dimensions.find? (isNamed · o.label.name) = some o
    ∧ o.label.uniqueName = m.dimension ∧ Spelled o.label.name
  /-- All members above it are in its hierarchy. -/
  hierarchy : ∀ a, c.Reaches m a → a.hierarchy = m.hierarchy
  /-- No name is empty, and all names are read as they were written. -/
  name : ∀ a, c.Reaches m a → a.label.name ≠ "" ∧ Spelled a.label.name
  /-- Neither the hierarchy nor a level answers to the name of the topmost member. -/
  root : ∀ a, c.Reaches m a → a.depth = 0 →
    (∀ h ∈ c.hierarchies, h.dimension = m.dimension → isNamed h a.label.name = false)
      ∧ ∀ l ∈ c.levels, l.dimension = m.dimension → isNamed l a.label.name = false
  /-- Every member is the first one among its siblings that answers to its name. -/
  first : ∀ a, c.Reaches m a → (c.siblings a).find? (isNamed · a.label.name) = some a

variable {c : MemoryCube} {d : CubeDescription}

/-- Nothing else is met on the way to the members above a member, either. -/
theorem Unobstructed.of_parent (hc : c.Filled d) {m p : Member} (hu : c.Unobstructed m)
    (hm : m ∈ c.members) (hp : p ∈ c.members) (hreaches : c.Reaches m p) : c.Unobstructed p := by
  have hhierarchy := hu.hierarchy p hreaches
  have hdimension : p.dimension = m.dimension := by
    obtain ⟨_, _, hm⟩ := hc.exists_described hm
    obtain ⟨_, _, hp⟩ := hc.exists_described hp
    rw [hp.dimension, ← hp.hierarchy, hhierarchy, hm.hierarchy, hm.dimension]
  refine ⟨?_, ?_, ?_, ?_, ?_⟩
  · rw [hdimension]
    exact hu.dimension
  · exact fun a ha => (hu.hierarchy a (hreaches.trans ha)).trans hhierarchy.symm
  · exact fun a ha => hu.name a (hreaches.trans ha)
  · rw [hdimension]
    exact fun a ha => hu.root a (hreaches.trans ha)
  · exact fun a ha => hu.first a (hreaches.trans ha)

end MemoryCube

namespace Store

variable {s : Store Unit} {answers : Request → Outcome RowSet} {d : CubeDescription}
  {c : MemoryCube} {x : Cube}

section

variable (hs : s.engine = .ofAnswers answers) (hlists : s.ListsBuilt answers d c x)
  (hb : c.Built d) (hc : c.Filled d) (hd : d.Apart)

include hs hlists hb hc hd

/-! ### Steps -/

omit hb hd in
/-- **The first step** finds the dimension. -/
theorem yields_find_dimension {o : Dimension} {segment : String}
    (ho : c.dimensions.find? (isNamed · segment) = some o) :
    Session.Yields (s.Faithful answers Inquiry.Formed) (s.provider.find x (.cube x) segment)
      (.ok (some (.dimension o.served))) := by
  refine Session.yields_find_child (yields_children_cube hs hlists) ?_
  rw [find?_served (fun _ => rfl) (.inr fun a ha => hc.uniqueName_of_mem_dimensions ha), ho]
  rfl

/-- **The step to a member at the root** passes by the hierarchy and the levels of its dimension. -/
theorem yields_find_root {m : Member} (hm : m ∈ c.members) (hdepth : m.depth = 0)
    (hu : c.Unobstructed m) {o : Dimension} (ho : o.label.uniqueName = m.dimension) :
    Session.Yields (s.Faithful answers Inquiry.Formed)
      (s.provider.find x (.dimension o) m.label.name) (.ok (some (.member m))) := by
  obtain ⟨dim, l, hdescribed⟩ := hc.exists_described hm
  obtain ⟨hsegment, -⟩ := hu.name m (.self m)
  obtain ⟨hhierarchies, hlevels⟩ := hu.root m (.self m) hdepth
  have hdim := hdescribed.mem
  -- neither the hierarchy nor a level answers to the name
  have hnone : ([(dim.toHierarchy d.name).served].map SchemaObject.hierarchy).find?
      (·.isNamed m.label.name) = none := by
    have hmem : dim.toHierarchy d.name ∈ c.hierarchies := by
      have hsingle : dim.toHierarchy d.name ∈ [dim.toHierarchy d.name] := List.mem_cons_self
      rw [← hc.hierarchies_of_dimension hd hdim] at hsingle
      exact (List.mem_filter.1 hsingle).1
    have hnot := hhierarchies _ hmem hdescribed.dimension.symm
    change (([dim.toHierarchy d.name].map Hierarchy.served).map SchemaObject.hierarchy).find? _
      = none
    rw [find?_served (fun _ => rfl) (.inl hsegment), List.find?_cons, hnot]
    rfl
  have hnone' : (((c.levelsIn dim).map Level.served).map SchemaObject.level).find?
      (·.isNamed m.label.name) = none := by
    rw [find?_served (fun _ => rfl) (.inl hsegment), Option.map_eq_none_iff, List.find?_eq_none]
    intro l' hl'
    obtain ⟨hmem, hhierarchy⟩ := List.mem_filter.1 hl'
    have hdimension : l'.dimension = m.dimension := by
      rw [(hb.dimension_eq hmem).2, eq_of_beq hhierarchy, hdescribed.dimension]
    rw [hlevels l' hmem hdimension]
    exact Bool.false_ne_true
  -- the level of the member is the first one
  obtain ⟨l', hl', hname, hdepth'⟩ := hc.exists_mem_levelsIn hd hdescribed
  obtain ⟨rest, hrest⟩ := hc.exists_levelsIn_eq_cons hd hdim hl' (hdepth'.trans hdepth)
  have hfound : (((c.members.filter (·.level == l'.label.uniqueName)).map Member.served).map
      SchemaObject.member).find? (·.isNamed m.label.name) = some (.member m) := by
    rw [hname, ← MemoryCube.siblings_of_root hb hc hm hdepth,
      find?_served (fun _ => rfl) (.inl hsegment), hu.first m (.self m), Option.map_some,
      MemoryCube.served_eq hb hc hm hsegment]
  have hsearch := yields_children_level hs hlists hc hd hdim hl'
  refine Session.yields_find_descend rfl
    (yields_children_dimension hs hlists hc hd hdim (ho.trans hdescribed.dimension)) hnone ?_
  refine Session.yields_descend_next (List.forall_mem_singleton.2 rfl)
    (Session.yields_searchChildren_singleton (yields_children_hierarchy hs hlists hdim) hnone') ?_
  rw [hrest]
  refine Session.yields_descend_found ?_ (Session.yields_searchChildren_head hsearch hfound)
  rw [← List.map_cons, ← List.map_cons]
  exact List.forall_mem_map.2 fun _ _ => rfl

/-- **The step to any other member** is one to a child of its parent. -/
theorem yields_find_below {p m : Member} (hp : p ∈ c.members) (hm : m ∈ c.members)
    (hhierarchy : p.hierarchy = m.hierarchy) (hdepth : p.depth + 1 = m.depth)
    (hparent : m.parent = some p.label.uniqueName) (hu : c.Unobstructed m) :
    Session.Yields (s.Faithful answers Inquiry.Formed)
      (s.provider.find x (.member p) m.label.name) (.ok (some (.member m))) := by
  obtain ⟨hsegment, -⟩ := hu.name m (.self m)
  have hregular : p.isMeasure = false := by
    rw [Member.isMeasure, (hb.members p hp).type]
    rfl
  refine Session.yields_find_child
    (yields_children_member hs hlists hc hd hregular hm hhierarchy hdepth hparent) ?_
  rw [find?_served (fun _ => rfl) (.inl hsegment), hu.first m (.self m), Option.map_some,
    MemoryCube.served_eq hb hc hm hsegment]

/-! ### All steps -/

/-- **All steps to a member**: its unique name spells segments that lead to it from the cube, and
whatever segments follow are looked for below it. -/
theorem exists_way (hn : (c.members.map fun m => m.label.uniqueName).Nodup) (hroots : c.Rooted)
    {m : Member} (hm : m ∈ c.members) (hu : c.Unobstructed m) :
    ∃ segments, segments ≠ [] ∧ joinSegments segments = m.label.uniqueName
      ∧ (∀ segment ∈ segments, Spelled segment)
      ∧ ∀ rest result, Session.Yields (s.Faithful answers Inquiry.Formed)
          (s.provider.follow x (.member m) rest) result →
        Session.Yields (s.Faithful answers Inquiry.Formed)
          (s.provider.resolveObject x ⟨segments ++ rest⟩) result := by
  induction hdepth : m.depth generalizing m with
  | zero =>
    obtain ⟨dim, l, hdescribed⟩ := hc.exists_described hm
    obtain ⟨o, hfind, ho, hspelled⟩ := hu.dimension
    have hunique := hc.uniqueName_of_mem_dimensions (List.mem_of_find?_eq_some hfind)
    refine ⟨[o.label.name, m.label.name], List.cons_ne_nil _ _, ?_, ?_, fun rest result h => ?_⟩
    · rw [hdescribed.label, hb.parent_eq_none hm hdepth, Option.getD_none, ← ho, hunique]
      rfl
    · exact List.forall_mem_cons.2 ⟨hspelled, List.forall_mem_singleton.2 (hu.name m (.self m)).2⟩
    · refine Session.yields_bind (yields_find_dimension hs hlists hc hfind) ?_
      exact Session.yields_bind (yields_find_root hs hlists hb hc hd hm hdepth hu ho) h
  | succ n ih =>
    obtain ⟨name, hname⟩ := Option.ne_none_iff_exists'.1 (hroots m hm (by omega))
    obtain ⟨-, p, hp, rfl, hpdepth⟩ := (hb.members m hm).parent name hname
    have hreaches : c.Reaches m p := .parent hname (MemoryCube.member?_uniqueName hn hp) (.self p)
    obtain ⟨segments, hne, hjoin, hspelled, hway⟩ :=
      ih hp (hu.of_parent hc hm hp hreaches) (by omega)
    obtain ⟨dim, l, hdescribed⟩ := hc.exists_described hm
    refine ⟨segments ++ [m.label.name], List.append_ne_nil_of_left_ne_nil hne _, ?_, ?_,
      fun rest result h => ?_⟩
    · rw [joinSegments_append_singleton hne, hjoin, hdescribed.label, hname]
      rfl
    · exact List.forall_mem_append.2
        ⟨hspelled, List.forall_mem_singleton.2 (hu.name m (.self m)).2⟩
    · rw [List.append_assoc]
      refine hway _ _ ?_
      exact Session.yields_bind (yields_find_below hs hlists hb hc hd hp hm
        (hu.hierarchy p hreaches) hpdepth hname hu) h

end

end Store

/-! ### Connections -/

theorem Connection.run_return {σ α β : Type} (c : Connection σ) (f : α → β)
    (use : Store σ → Session σ α) :
    (c.run fun s => do return f (← use s)).1 = f <$> (c.run use).1 :=
  congrArg Prod.fst (Session.run_return f (use c.store) (c.shelves, c.state))

/-- Without definitions, an identifier names an object of the cube. -/
theorem Store.evaluate_identifier {σ : Type} (s : Store σ) {i : Identifier} {ctx : Context}
    {x : Cube} (hcube : ctx.cube = some x) (hmembers : ctx.members = []) (hsets : ctx.sets = []) :
    s.provider.evaluate (.identifier i) ctx
      = (do return .object (← s.provider.resolveObject x i)) := by
  have hmember : ctx.member? i.uniqueName = none := by
    rw [Context.member?, hmembers]
    rfl
  have hset : ctx.set? i.uniqueName = none := by
    rw [Context.set?, hsets]
    rfl
  have hrequire : (ctx.requireCube : Session σ Cube) = pure x := by
    rw [Context.requireCube, hcube]
  rw [Provider.evaluate, Provider.resolve, hmember, hset, hrequire]
  exact pure_bind x _

namespace MemoryEngine

variable {c : MemoryCube} {d : CubeDescription} {config : Config} {cubes : List MemoryCube}

/-- **Unique names lead to their members.**  A cube is built from a description, it has a name, its
dimensions have different names, its members have different unique names, and all members below a
root level have a parent.  An engine in memory serves it, and no other cube answers to its name.  If
nothing else is met on the way to a member, then its unique name, read as an identifier in a context
without definitions, evaluates to the member itself.  This is true after any uses of the connection
that evaluate no statement, and that are about objects which are named like those around them. -/
theorem resolves_uniqueName (hbuild : d.build = .ok c) (hname : d.name ≠ "")
    (hcountable : d.Countable) (hdimensions : (c.dimensions.map fun o => o.label.name).Nodup)
    (hmembers : (c.members.map fun m => m.label.uniqueName).Nodup) (hroots : c.Rooted)
    (hcubes : cubes.filter (fun c' => isNamed c'.cube d.name) = [c]) {calls : List Call}
    (hcalls : ∀ call ∈ calls, call.evaluates = false)
    (hformed : ∀ q ∈ Call.recent calls, q.Formed) {ctx : Context} {x : Cube}
    (hx : x.label.name = d.name) (hcube : ctx.cube = some x) (hnoMembers : ctx.members = [])
    (hnoSets : ctx.sets = []) {m : Member} (hm : m ∈ c.members) (hu : c.Unobstructed m) :
    let u := ((ofCubes config.catalog config.schema cubes).connection config).after calls
    (u.run (·.provider.evaluate (.identifier (.parse m.label.uniqueName)) ctx)).1
      = .ok (.object (.member m)) := by
  have hbuilt := CubeDescription.built hbuild
  have hfilled := CubeDescription.filled hbuild
  have hapart := hfilled.apart hdimensions
  have hlists : (storeOf config cubes).ListsBuilt (answersOf config cubes) d c x :=
    listsBuilt hcubes hx hbuild hname hapart hcountable
  obtain ⟨segments, hne, hjoin, hspelled, hway⟩ :=
    Store.exists_way rfl hlists hbuilt hfilled hapart hmembers hroots hm hu
  have hsegments := segments_parse_joinSegments hne hspelled
  rw [hjoin] at hsegments
  have hobject := hway [] _ (Session.yields_pure _)
  rw [List.append_nil, ← hsegments] at hobject
  refine Connection.outcome_of_yields rfl rfl hcalls
    (fun q' hq' q hq hslot => (hformed q' hq').agrees hq hslot) ?_
  rw [Store.evaluate_identifier _ hcube hnoMembers hnoSets]
  exact Session.yields_return hobject _

set_option maxRecDepth 100000 in
/-- The way to the second city of the sales passes by the first one. -/
theorem resolves_uniqueName_linz :
    let ctx : Context := .ofCube salesCube.cube
    let u := ((ofCubes "LdCatalog" "LdSchema" [salesCube]).connection {}).after [.cube "Sales"]
    ∃ m ∈ salesCube.members, m.label.uniqueName = "[Geo].[AT].[Linz]" ∧ m.ordinal = 1
      ∧ (u.run (·.provider.evaluate (.identifier (.parse "[Geo].[AT].[Linz]")) ctx)).1
        = .ok (.object (.member m)) := by
  intro ctx u
  let country : Level := (DimensionDescription.mk "Geo" .other []).toLevel "Sales" "Country" 0
  let city : Level := (DimensionDescription.mk "Geo" .other []).toLevel "Sales" "City" 1
  let austria : Member := country.toMember ⟨"[Geo].[Country]", "AT", none⟩ 0
  let linz : Member := city.toMember ⟨"[Geo].[City]", "Linz", some "[Geo].[AT]"⟩ 1
  have hmem : linz ∈ salesCube.members := by decide +kernel
  have hcubes : [salesCube].filter (fun c' => isNamed c'.cube sales.name) = [salesCube] :=
    List.filter_eq_self.2 (List.forall_mem_singleton.2 (by decide +kernel))
  have hcountable : sales.Countable := by constructor <;> decide +kernel
  have hroots : ∀ m ∈ salesCube.members, 0 < m.depth → m.parent ≠ none := by decide +kernel
  -- only two members are reached
  have hreaches : ∀ a, salesCube.Reaches linz a → a = linz ∨ a = austria := by
    intro a ha
    cases ha with
    | self => exact .inl rfl
    | parent hname hp ha =>
      obtain rfl := Option.some.inj hname
      have hparent : salesCube.member? "[Geo].[AT]" = some austria := by decide +kernel
      obtain rfl := Option.some.inj (hparent.symm.trans hp)
      cases ha with
      | self => exact .inr rfl
      | parent hname => cases hname
  have hunobstructed : salesCube.Unobstructed linz := by
    refine ⟨⟨(DimensionDescription.mk "Geo" .other []).toDimension "Sales" 0, ?_, ?_, ?_⟩,
      ?_, ?_, ?_, ?_⟩
    · decide +kernel
    · decide +kernel
    · decide +kernel
    all_goals
      intro a ha
      obtain rfl | rfl := hreaches a ha
    · rfl
    · rfl
    · exact ⟨by decide, by decide +kernel⟩
    · exact ⟨by decide, by decide +kernel⟩
    · exact fun h => absurd h (by decide)
    · exact fun _ => ⟨by decide +kernel, by decide +kernel⟩
    · decide +kernel
    · decide +kernel
  have hevaluate := @resolves_uniqueName salesCube sales {} [salesCube] build_sales (by decide)
    hcountable (by decide +kernel) (by decide +kernel) hroots hcubes [.cube "Sales"]
    (List.forall_mem_singleton.2 rfl) (List.forall_mem_singleton.2 trivial) ctx salesCube.cube
    (by decide +kernel) rfl rfl rfl linz hmem hunobstructed
  exact ⟨linz, hmem, by decide +kernel, rfl, hevaluate⟩

/-- Sales by place.  Only the first place is met before anything else on the way to it. -/
def places : CubeDescription where
  name := "Sales"
  dimensions := [⟨"Geo", .other, ["Country"]⟩, ⟨"[Geo]", .other, ["Region", "Area"]⟩]
  members :=
    [⟨"[Geo].[Country]", "AT", none⟩,
      -- the hierarchy and the level of these two
      ⟨"[Geo].[Country]", "Geo", none⟩,
      ⟨"[Geo].[Country]", "Country", none⟩,
      -- a sibling with this unique name
      ⟨"[Geo].[Country]", "[Geo].[AT]", none⟩,
      -- nothing is listed under an empty name
      ⟨"[Geo].[Country]", "", none⟩,
      -- the first place, once the blank is trimmed
      ⟨"[Geo].[Country]", " AT", none⟩,
      -- a dimension before its own
      ⟨"[[Geo]]].[Region]", "North", none⟩,
      -- not in the hierarchy of its parent
      ⟨"[[Geo]]].[Area]", "Tyrol", some "[Geo].[AT]"⟩]
  measures := []
  facts := []

theorem isOk_places : places.build.isOk = true := by decide +kernel

/-- The cube of these sales. -/
def placesCube : MemoryCube := places.build.get isOk_places

set_option maxRecDepth 100000 in
/-- **Something else is met before a member.**  The names of the dimensions and the unique names of
the members differ, and every member below a root level has a parent.  Of eight unique names, only
one evaluates to its member. -/
theorem not_resolves_uniqueName :
    let u := (ofCubes "LdCatalog" "LdSchema" [placesCube]).connection {}
    places.build = .ok placesCube
      ∧ (placesCube.dimensions.map fun o => o.label.name).Nodup
      ∧ (placesCube.members.map fun m => m.label.uniqueName).Nodup
      ∧ placesCube.Rooted
      ∧ placesCube.members.length = 8
      ∧ ∀ m ∈ placesCube.members,
        (u.run (·.provider.evaluate (.identifier (.parse m.label.uniqueName))
          (.ofCube placesCube.cube))).1 = .ok (.object (.member m)) ↔ m.label.name = "AT" := by
  intro u
  have hroots : ∀ m ∈ placesCube.members, 0 < m.depth → m.parent ≠ none := by decide +kernel
  refine ⟨Outcome.eq_ok_get isOk_places, by decide +kernel, by decide +kernel, hroots,
    by decide +kernel, fun m hm => ?_⟩
  have hevaluate : (fun s : Store Unit => s.provider.evaluate
      (.identifier (.parse m.label.uniqueName)) (.ofCube placesCube.cube))
        = fun s => do return .object (← s.provider.resolveObject placesCube.cube
          (.parse m.label.uniqueName)) :=
    funext fun s => s.evaluate_identifier rfl rfl rfl
  have hobjects : ∀ m ∈ placesCube.members, (u.run (·.provider.resolveObject placesCube.cube
      (.parse m.label.uniqueName))).1 = .ok (.member m) ↔ m.label.name = "AT" := by
    decide +kernel
  rw [hevaluate, Connection.run_return, Outcome.map_eq_ok, ← hobjects m hm]
  constructor
  · rintro ⟨o, ho, hvalue⟩
    cases hvalue
    exact ho
  · exact fun hmember => ⟨.member m, hmember, rfl⟩

end MemoryEngine

end Datacube
