import Datacube.Proofs.Listings
import Datacube.Proofs.Yields
import Datacube.Query.Search
import Mathlib.Data.List.Find

/-!
# Searches for the objects of a cube

A search for a segment asks a store for the children of objects, generation by generation.  What the
store lists are the objects of the cube under the names that they have, so an object is found if it
is the first one in the cube that answers to the segment.

## Main definitions

* `Member.Described` — where a member of a cube was described.
* `MemoryCube.siblings` — the members next to a member.
* `Inquiry.Formed` — whether an inquiry is about objects that are named like those around them.

## Main results

* `Session.yields_find_child`, `Session.yields_descend_found`, … — the rules of searches.
* `MemoryCube.siblings_of_root` — the siblings of a member at the root are all members of its level.
* `Store.yields_children_cube`, `Store.yields_children_member`, … — **the children of objects**.
-/

namespace Datacube

/-! ### Names of objects -/

/-- What is served is found under the names that it has. -/
theorem find?_served {α : Type} [Labelled α] {served : α → α} {toObject : α → SchemaObject}
    (hlabel : ∀ a, label (toObject (served a)) = (label a).served) {segment : String} {as : List α}
    (hsegment : segment ≠ "" ∨ ∀ a ∈ as, uniqueName a = quoteSegment (label a).name) :
    ((as.map served).map toObject).find? (·.isNamed segment)
      = (as.find? (isNamed · segment)).map fun a => toObject (served a) := by
  rw [List.map_map, List.find?_map]
  refine congrArg (Option.map _) (List.find?_congr fun a ha => ?_)
  exact isNamed_of_served (hlabel a) (hsegment.imp_right fun h => h a ha)

/-! ### Searches -/

namespace Session

variable {σ : Type} {I : Shelves → Prop} {p : Provider (Session σ)} {x : Cube} {segment : String}

/-- Children are found before all other descendants. -/
theorem yields_find_child {o k : SchemaObject} {kids : List SchemaObject}
    (hkids : Yields I (p.children x o) (.ok kids))
    (hk : kids.find? (·.isNamed segment) = some k) :
    Yields I (p.find x o segment) (.ok (some k)) := by
  refine yields_bind hkids ?_
  simp only [hk]
  exact yields_pure _

/-- Without such a child, the descendants of an object other than a member are searched. -/
theorem yields_find_descend {o : SchemaObject} (ho : Provider.isContainer o = true)
    {kids : List SchemaObject} (hkids : Yields I (p.children x o) (.ok kids))
    (hnone : kids.find? (·.isNamed segment) = none) {result : Outcome (Option SchemaObject)}
    (h : Yields I (p.descend Provider.isContainer x segment o.rank kids) result) :
    Yields I (p.find x o segment) result := by
  refine yields_bind hkids ?_
  simp only [hnone, ho, if_true]
  exact h

/-- The children of the first object of a generation are searched first. -/
theorem yields_searchChildren_head {o k : SchemaObject} {kids os : List SchemaObject}
    (hkids : Yields I (p.children x o) (.ok kids))
    (hk : kids.find? (·.isNamed segment) = some k) :
    Yields I (p.searchChildren x segment (o :: os)) (.ok (.inl k)) := by
  refine yields_bind hkids ?_
  simp only [hk]
  exact yields_pure _

/-- The children of a single object that are all named otherwise. -/
theorem yields_searchChildren_singleton {o : SchemaObject} {kids : List SchemaObject}
    (hkids : Yields I (p.children x o) (.ok kids))
    (hnone : kids.find? (·.isNamed segment) = none) :
    Yields I (p.searchChildren x segment [o]) (.ok (.inr kids)) := by
  refine yields_bind hkids ?_
  simp only [hnone]
  refine yields_bind (yields_pure _) ?_
  dsimp only
  rw [List.append_nil]
  exact yields_pure _

/-- The hierarchy of a unique name is the first one in the dimensions, one after the other. -/
theorem yields_hierarchyIn {name : String} {kids : Dimension → List Hierarchy}
    {dims : List Dimension} (hkids : ∀ o ∈ dims, Yields I (p.hierarchies x o) (.ok (kids o)))
    {h : Hierarchy} (hfind : (dims.flatMap kids).find? (fun h => uniqueName h == name) = some h) :
    Yields I (p.hierarchyIn x name dims) (.ok h) := by
  induction dims with
  | nil => cases hfind
  | cons o dims ih =>
    rw [List.flatMap_cons, List.find?_append] at hfind
    refine yields_bind (hkids o List.mem_cons_self) ?_
    cases hfirst : (kids o).find? fun h => uniqueName h == name with
    | some h' =>
      rw [hfirst] at hfind
      obtain rfl := Option.some.inj hfind
      exact yields_pure _
    | none =>
      rw [hfirst, Option.none_or] at hfind
      exact ih (fun o' ho' => hkids o' (List.mem_cons_of_mem _ ho')) hfind

variable {o : SchemaObject} {os : List SchemaObject} {fuel : Nat}
  (hcontainers : ∀ a ∈ o :: os, Provider.isContainer a = true)

include hcontainers

/-- A search ends at the first generation that has what is looked for. -/
theorem yields_descend_found {k : SchemaObject}
    (h : Yields I (p.searchChildren x segment (o :: os)) (.ok (.inl k))) :
    Yields I (p.descend Provider.isContainer x segment (fuel + 1) (o :: os)) (.ok (some k)) := by
  rw [Provider.descend.eq_def]
  dsimp only
  rw [List.filter_eq_self.2 hcontainers]
  exact yields_bind h (yields_pure _)

/-- A search goes on with the next generation. -/
theorem yields_descend_next {next : List SchemaObject} {result : Outcome (Option SchemaObject)}
    (h : Yields I (p.searchChildren x segment (o :: os)) (.ok (.inr next)))
    (hnext : Yields I (p.descend Provider.isContainer x segment fuel next) result) :
    Yields I (p.descend Provider.isContainer x segment (fuel + 1) (o :: os)) result := by
  rw [Provider.descend.eq_def]
  dsimp only
  rw [List.filter_eq_self.2 hcontainers]
  exact yields_bind h hnext

end Session

/-! ### Members and the objects around them -/

/-- Where a member of a cube was described. -/
structure Member.Described (d : CubeDescription) (dim : DimensionDescription) (l : Level)
    (a : Member) : Prop where
  mem : dim ∈ d.dimensions
  level : l ∈ dim.toLevels d.name
  /-- Levels of one name have the members of the first one. -/
  named : levelNamed? a.level d.toLevels = some l
  depth : a.depth = l.depth
  dimension : a.dimension = quoteSegment dim.name
  hierarchy : a.hierarchy = quoteSegment dim.name
  label : a.label
    = .ofName (a.parent.getD a.dimension ++ "." ++ quoteSegment a.label.name) a.label.name

namespace MemoryCube

variable (c : MemoryCube)

/-- The members next to a member, itself among them: those of its level that have its parent. -/
def siblings (a : Member) : List Member :=
  c.members.filter fun b => b.level == a.level && b.parent == a.parent

variable {c} {d : CubeDescription}

/-- Every member of a cube was described. -/
theorem Filled.exists_described (hc : c.Filled d) {a : Member} (ha : a ∈ c.members) :
    ∃ dim l, a.Described d dim l := by
  obtain ⟨l, hl, hmem⟩ := hc.exists_level ha
  obtain ⟨dim, hdim, hlevel⟩ := List.mem_flatMap.1 (mem_of_levelNamed? hl).1
  refine ⟨dim, l, hdim, hlevel, hl, ?_, ?_, ?_, ?_⟩
  all_goals
    obtain ⟨m, ordinal, -, rfl⟩ := Level.mem_membersOf.1 hmem
    obtain ⟨_, _, -, rfl⟩ := DimensionDescription.mem_toLevels.1 hlevel
    rfl

/-- The unique name of a dimension is its quoted name. -/
theorem Filled.uniqueName_of_mem_dimensions (hc : c.Filled d) {o : Dimension}
    (ho : o ∈ c.dimensions) : o.label.uniqueName = quoteSegment o.label.name := by
  rw [hc.dimensions] at ho
  rcases CubeDescription.mem_dimensions.1 ho with ⟨_, _, -, rfl⟩ | ⟨-, rfl⟩
  · rfl
  · have hmeasures : measuresDimension = quoteSegment "Measures" := by decide
    exact hmeasures

/-- What has a name and was described is served as it is. -/
theorem served_eq (hb : c.Built d) (hc : c.Filled d) {a : Member} (ha : a ∈ c.members)
    (hname : a.label.name ≠ "") : a.served = a := by
  obtain ⟨dim, l, hdescribed⟩ := hc.exists_described ha
  have hunique := (hb.members a ha).uniqueName
  refine Member.served_of_complete ?_
  rw [hdescribed.label] at hunique ⊢
  exact Label.complete_ofName hunique hname

/-- The level of a member, among those of its dimension. -/
theorem Filled.exists_mem_levelsIn (hc : c.Filled d) (hd : d.Apart) {a : Member}
    {dim : DimensionDescription} {l : Level} (ha : a.Described d dim l) :
    ∃ l' ∈ c.levelsIn dim, l'.label.uniqueName = a.level ∧ l'.depth = a.depth := by
  have hmem := ha.level
  rw [← hc.map_place_levelsIn hd ha.mem] at hmem
  obtain ⟨l', hl', rfl⟩ := List.mem_map.1 hmem
  exact ⟨l', hl', (mem_of_levelNamed? ha.named).2, ha.depth.symm⟩

/-- The levels of a dimension differ in their depths. -/
theorem Filled.eq_of_depth (hc : c.Filled d) (hd : d.Apart) {dim : DimensionDescription}
    (hdim : dim ∈ d.dimensions) {l l' : Level} (hl : l ∈ c.levelsIn dim) (hl' : l' ∈ c.levelsIn dim)
    (h : l.depth = l'.depth) : l = l' := by
  have hnodup : ((c.levelsIn dim).map Level.depth).Nodup := by
    rw [hc.map_depth_levelsIn hd hdim]
    exact List.nodup_range
  exact List.inj_on_of_nodup_map hnodup hl hl' h

/-- The level at the root is the first one. -/
theorem Filled.exists_levelsIn_eq_cons (hc : c.Filled d) (hd : d.Apart)
    {dim : DimensionDescription} (hdim : dim ∈ d.dimensions) {l : Level} (hl : l ∈ c.levelsIn dim)
    (h : l.depth = 0) : ∃ rest, c.levelsIn dim = l :: rest := by
  cases hlevels : c.levelsIn dim with
  | nil =>
    rw [hlevels] at hl
    cases hl
  | cons first rest =>
    have hfirst : first.depth = 0 := by
      have hdepths := hc.map_depth_levelsIn hd hdim
      rw [hlevels, List.map_cons] at hdepths
      cases hlength : dim.levels.length with
      | zero =>
        rw [hlength] at hdepths
        cases hdepths
      | succ n =>
        rw [hlength, List.range_succ_eq_map] at hdepths
        exact (List.cons.inj hdepths).1
    have hmem : first ∈ c.levelsIn dim := hlevels ▸ List.mem_cons_self
    rw [hc.eq_of_depth hd hdim hl hmem (h.trans hfirst.symm)]
    exact ⟨rest, rfl⟩

/-- A member with a parent is below the root. -/
theorem Built.parent_eq_none (hb : c.Built d) {a : Member} (ha : a ∈ c.members)
    (h : a.depth = 0) : a.parent = none := by
  refine Option.eq_none_iff_forall_ne_some.2 fun name hname => ?_
  obtain ⟨-, p, -, -, hdepth⟩ := (hb.members a ha).parent name hname
  omega

/-- **The siblings of a member at the root** are all members of its level. -/
theorem siblings_of_root (hb : c.Built d) (hc : c.Filled d) {a : Member} (ha : a ∈ c.members)
    (hdepth : a.depth = 0) : c.siblings a = c.members.filter (·.level == a.level) := by
  obtain ⟨dim, l, hdescribed⟩ := hc.exists_described ha
  have horphan : ∀ b ∈ c.members, b.level = a.level → b.parent = none := by
    intro b hmem hlevel
    obtain ⟨dim', l', hdescribed'⟩ := hc.exists_described hmem
    have hnamed := hdescribed'.named
    rw [hlevel, hdescribed.named] at hnamed
    obtain rfl := Option.some.inj hnamed
    exact hb.parent_eq_none hmem
      (hdescribed'.depth.trans (hdescribed.depth.symm.trans hdepth))
  refine List.filter_congr fun b hmem => ?_
  by_cases hlevel : b.level = a.level
  · rw [horphan b hmem hlevel, horphan a ha rfl]
    exact Bool.and_true _
  · rw [beq_false_of_ne hlevel, Bool.false_and]

end MemoryCube

/-! ### Children -/

/-- Whether objects in an inquiry are named like those around them: a hierarchy like its dimension,
and a level after its hierarchy. -/
def Inquiry.Formed : Inquiry → Prop
  | .levels _ h => h.dimension = h.label.uniqueName
  | .members _ l => l.Formed
  | _ => True

/-- **Inquiries about such objects do not share slots.** -/
theorem Inquiry.Formed.agrees {q' q : Inquiry} (hq' : q'.Formed) (hq : q.Formed)
    (hslot : q'.slot = q.slot) : q'.Agrees q := by
  have hkey : HEq q'.key q.key := (Sigma.mk.inj hslot).2
  cases q' <;> cases q <;> try trivial
  case levels.levels _ h' _ h =>
    have hunique : h'.label.uniqueName = h.label.uniqueName := (Prod.mk.inj (eq_of_heq hkey)).2
    exact Eq.trans hq' (hunique.trans (Eq.symm hq))
  case members.members _ l' _ l =>
    exact Level.Formed.same hq' hq (Prod.mk.inj (eq_of_heq hkey)).2

namespace Store

variable {s : Store Unit} {answers : Request → Outcome RowSet} {d : CubeDescription}
  {c : MemoryCube} {x : Cube}

section

variable (hs : s.engine = .ofAnswers answers) (hlists : s.ListsBuilt answers d c x)

include hs in
private theorem yields_formed {q : Inquiry} (hq : q.Formed) {items : List q.listing.Item}
    (h : s.answer answers q = .ok items) :
    Session.Yields (s.Faithful answers Inquiry.Formed) (s.list q) (.ok items) :=
  yields_list hs (fun _ _ hq' hq => hq'.agrees hq) hq h

include hs hlists

private theorem yields_listDimensions :
    Session.Yields (s.Faithful answers Inquiry.Formed) (s.provider.dimensions x)
      (.ok (c.dimensions.map Dimension.served)) := by
  change Session.Yields _ (s.dimensions x) _
  rw [dimensions_eq_list]
  exact yields_formed hs (q := .dimensions x) trivial hlists.dimensions

private theorem yields_listHierarchies (o : Dimension) :
    Session.Yields (s.Faithful answers Inquiry.Formed) (s.provider.hierarchies x o)
      (.ok ((c.hierarchies.filter (·.dimension == o.label.uniqueName)).map Hierarchy.served)) :=
  yields_formed hs (q := .hierarchies x o) trivial (hlists.hierarchies o)

private theorem yields_listLevels {dim : DimensionDescription} (hdim : dim ∈ d.dimensions) :
    Session.Yields (s.Faithful answers Inquiry.Formed)
      (s.provider.levels x (dim.toHierarchy d.name).served)
      (.ok ((c.levelsIn dim).map Level.served)) := by
  change Session.Yields _ (s.levels x _) _
  rw [levels_eq_list]
  exact yields_formed hs (q := .levels x (dim.toHierarchy d.name).served) rfl
    (hlists.levels dim hdim _ rfl rfl)

private theorem yields_listMembers {l : Level} (hl : l.Formed) :
    Session.Yields (s.Faithful answers Inquiry.Formed) (s.provider.members x l.served)
      (.ok ((c.members.filter (·.level == l.label.uniqueName)).map Member.served)) := by
  change Session.Yields _ (s.members x _) _
  rw [members_eq_list]
  exact yields_formed hs (q := .members x l.served) hl (hlists.members l.served hl)

theorem yields_children_cube : Session.Yields (s.Faithful answers Inquiry.Formed)
    (s.provider.children x (.cube x))
    (.ok ((c.dimensions.map Dimension.served).map .dimension)) :=
  Session.yields_return (yields_listDimensions hs hlists) _

variable (hb : c.Built d) (hc : c.Filled d) (hd : d.Apart) {dim : DimensionDescription}
  (hdim : dim ∈ d.dimensions)

include hc hd hdim

theorem yields_children_dimension {o : Dimension}
    (ho : o.label.uniqueName = quoteSegment dim.name) :
    Session.Yields (s.Faithful answers Inquiry.Formed) (s.provider.children x (.dimension o))
      (.ok ([(dim.toHierarchy d.name).served].map .hierarchy)) := by
  have hhierarchies := yields_listHierarchies hs hlists o
  rw [ho, hc.hierarchies_of_dimension hd hdim] at hhierarchies
  exact Session.yields_return hhierarchies _

omit hc hd in
theorem yields_children_hierarchy : Session.Yields (s.Faithful answers Inquiry.Formed)
    (s.provider.children x (.hierarchy (dim.toHierarchy d.name).served))
    (.ok (((c.levelsIn dim).map Level.served).map .level)) :=
  Session.yields_return (yields_listLevels hs hlists hdim) _

/-- No level of a dimension that was described holds the measures. -/
theorem yields_children_level {l : Level} (hl : l ∈ c.levelsIn dim) :
    Session.Yields (s.Faithful answers Inquiry.Formed) (s.provider.children x (.level l.served))
      (.ok (((c.members.filter (·.level == l.label.uniqueName)).map Member.served).map
        .member)) := by
  have hformed := hc.formed_of_mem_levelsIn hd hdim hl
  obtain ⟨measures, hmeasures, hlevel⟩ := hlists.measures
  have hnone : measures.filter (fun a => a.level == l.served.label.uniqueName) = [] := by
    refine List.filter_eq_nil_iff.2 fun a ha heq => ?_
    obtain ⟨hnonempty, ha'⟩ := hlevel a ha
    obtain ⟨dimension, name, hunique, -, hhierarchy⟩ := hformed
    have hquote : quoteSegment "Measures" ++ "." ++ quoteSegment "MeasuresLevel"
        = quoteSegment dimension ++ "." ++ quoteSegment name :=
      ha'.symm.trans ((eq_of_beq heq).trans hunique)
    have hname : quoteSegment dimension = quoteSegment dim.name :=
      hhierarchy.symm.trans (eq_of_beq (List.mem_filter.1 hl).2)
    refine hd.ne_measuresDimension hdim hnonempty ?_
    rw [← hname, ← (quoteSegment_dot_inj hquote).1]
    rfl
  have hmembers : Session.Yields (s.Faithful answers Inquiry.Formed)
      (s.provider.levelMembers x l.served)
      (.ok ((c.members.filter (·.level == l.label.uniqueName)).map Member.served)) := by
    refine Session.yields_bind (yields_formed hs (q := .measures x) trivial hmeasures) ?_
    rw [hnone]
    exact yields_listMembers hs hlists hformed
  exact Session.yields_return hmembers _

/-- **The hierarchy of a dimension** is found by its unique name. -/
theorem yields_hierarchy : Session.Yields (s.Faithful answers Inquiry.Formed)
    (s.provider.hierarchy x (quoteSegment dim.name)) (.ok (dim.toHierarchy d.name).served) := by
  refine Session.yields_bind (yields_listDimensions hs hlists) ?_
  refine Session.yields_hierarchyIn (fun o _ => yields_listHierarchies hs hlists o) ?_
  refine find?_eq_some_of_unique ?_ (beq_self_eq_true _) fun h hh heq => ?_
  · obtain ⟨ordinal, hget⟩ := List.getElem?_of_mem hdim
    have ho : dim.toDimension d.name ordinal ∈ c.dimensions := by
      rw [hc.dimensions]
      exact CubeDescription.mem_dimensions.2 (.inl ⟨dim, ordinal, hget, rfl⟩)
    refine List.mem_flatMap.2 ⟨_, List.mem_map_of_mem ho, List.mem_map_of_mem ?_⟩
    have hmem : dim.toHierarchy d.name ∈ [dim.toHierarchy d.name] := List.mem_cons_self
    rwa [← hc.hierarchies_of_dimension hd hdim] at hmem
  -- a hierarchy of this unique name is in the dimension of this unique name
  · obtain ⟨o, -, hh⟩ := List.mem_flatMap.1 hh
    obtain ⟨h', hh', rfl⟩ := List.mem_map.1 hh
    have hmem := (List.mem_filter.1 hh').1
    have hdimension : h'.dimension = quoteSegment dim.name :=
      (hc.of_mem_hierarchies hmem).1.symm.trans (eq_of_beq heq)
    have hsingle : h' ∈ c.hierarchies.filter (·.dimension == quoteSegment dim.name) :=
      List.mem_filter.2 ⟨hmem, beq_iff_eq.2 hdimension⟩
    rw [hc.hierarchies_of_dimension hd hdim, List.mem_singleton] at hsingle
    rw [hsingle]

omit hdim in
/-- **The children of a member** are the siblings of each of them. -/
theorem yields_children_member {p m : Member} (hp : p.isMeasure = false) (hm : m ∈ c.members)
    (hhierarchy : p.hierarchy = m.hierarchy) (hdepth : p.depth + 1 = m.depth)
    (hparent : m.parent = some p.label.uniqueName) :
    Session.Yields (s.Faithful answers Inquiry.Formed) (s.provider.children x (.member p))
      (.ok (((c.siblings m).map Member.served).map .member)) := by
  obtain ⟨dim, l, hdescribed⟩ := hc.exists_described hm
  obtain ⟨l', hl', hname, hlevel⟩ := hc.exists_mem_levelsIn hd hdescribed
  -- the level of the children is the one of the member that they are siblings of
  have hfind : ((c.levelsIn dim).map Level.served).find? (fun l => l.depth == p.depth + 1)
      = some l'.served := by
    refine find?_eq_some_of_unique (List.mem_map_of_mem hl') ?_ fun l'' hl'' heq => ?_
    · rw [hdepth]
      exact beq_iff_eq.2 hlevel
    · obtain ⟨b, hb, rfl⟩ := List.mem_map.1 hl''
      have hsame : b.depth = l'.depth := (eq_of_beq heq).trans (hdepth.trans hlevel.symm)
      rw [hc.eq_of_depth hd hdescribed.mem hb hl' hsame]
  have hsiblings : ((c.members.filter (·.level == l'.label.uniqueName)).map Member.served).filter
      (fun a => a.parent == some p.label.uniqueName) = (c.siblings m).map Member.served := by
    rw [List.filter_map, List.filter_filter, MemoryCube.siblings, hname, hparent]
    refine congrArg (List.map _) (List.filter_congr fun b _ => ?_)
    exact Bool.and_comm _ _
  have hkids : Session.Yields (s.Faithful answers Inquiry.Formed) (s.provider.memberChildren x p)
      (.ok ((c.siblings m).map Member.served)) := by
    unfold Provider.memberChildren
    simp only [hp, Bool.false_eq_true, if_false, hhierarchy, hdescribed.hierarchy]
    refine Session.yields_bind (yields_hierarchy hs hlists hc hd hdescribed.mem) ?_
    refine Session.yields_bind (yields_listLevels hs hlists hdescribed.mem) ?_
    simp only [hfind]
    refine Session.yields_bind
      (yields_listMembers hs hlists (hc.formed_of_mem_levelsIn hd hdescribed.mem hl')) ?_
    rw [hsiblings]
    exact Session.yields_pure _
  exact Session.yields_return hkids _

end

end Store

end Datacube
