import Datacube.Proofs.MemoryEngines
import Datacube.Proofs.Partitions
import Datacube.Proofs.Searches
import Datacube.Proofs.UniqueNames

/-!
# Observations that share a row

Two observations contribute to the same row if their ancestors at the roll-up levels have the same
canonical names.  These are the same ancestors if canonical names tell members apart, for instance if
no name of a dimension or of a member has blanks around it, an escape or a dot.  Otherwise
observations of different members may be added up in one row.

## Main definitions

* `Plain` — whether a name stands as it is in canonical names.
* `CubeDescription.names` — the names in the unique names of members.
* `MemoryCube.CanonicalApart` — whether canonical names tell members apart.
* `MemoryCube.ShareRow` — whether two observations contribute to the same row.

## Main results

* `intercalate_dot_inj` — texts without dots make up different texts if they are different.
* `MemoryCube.exists_segments` — the unique name of a member is made of names of the description.
* `MemoryCube.canonicalApart_of_plain` — **plain names** make canonical names tell members apart.
* `MemoryCube.shareRow_iff` — **when observations share a row**.
* `Connection.nodup_planned` — the plan of a statement has one operator of each kind.
* `MemoryEngine.not_separated` — **observations of different members may share a row**.
-/

namespace Datacube

/-! ### Canonical names -/

/-- Texts without dots are read back from the text that they make up. -/
private theorem splitOn_intercalate_dot {xs : List String} (hne : xs ≠ [])
    (h : ∀ s ∈ xs, '.' ∉ s.toList) :
    (".".intercalate xs).toList.splitOn '.' = xs.map String.toList := by
  rw [String.toList_intercalate]
  exact List.splitOn_intercalate '.' (List.forall_mem_map.2 h)
    fun hnil => hne (List.map_eq_nil_iff.1 hnil)

/-- **Texts without dots** make up different texts if they are different. -/
theorem intercalate_dot_inj {xs ys : List String} (hx : xs ≠ []) (hy : ys ≠ [])
    (hxs : ∀ s ∈ xs, '.' ∉ s.toList) (hys : ∀ s ∈ ys, '.' ∉ s.toList)
    (h : ".".intercalate xs = ".".intercalate ys) : xs = ys := by
  have hmap : xs.map String.toList = ys.map String.toList := by
    rw [← splitOn_intercalate_dot hx hxs, h, splitOn_intercalate_dot hy hys]
  exact List.map_injective_iff.2 (fun _ _ => String.toList_inj.1) hmap

/-- Whether a name stands as it is in canonical names and ends where it does: there are no blanks
around it, and no escapes and no dots in it. -/
structure Plain (name : String) : Prop where
  spelled : Spelled name
  decoded : decodeName name = name
  undotted : '.' ∉ name.toList

theorem canonicalName_joinSegments {segments : List String} (hne : segments ≠ [])
    (h : ∀ s ∈ segments, Plain s) :
    canonicalName (joinSegments segments) = ".".intercalate segments := by
  have hsame : (segments.map trim).map decodeName = segments := by
    rw [List.map_map]
    refine (List.map_congr_left fun s hs => ?_).trans (List.map_id _)
    exact (congrArg decodeName (h s hs).spelled).trans (h s hs).decoded
  rw [canonicalName, splitName_joinSegments hne, hsame]

/-- **Canonical names of plain segments** tell unique names apart. -/
theorem eq_of_canonicalName_joinSegments {segments others : List String} (hne : segments ≠ [])
    (hne' : others ≠ []) (h : ∀ s ∈ segments, Plain s) (h' : ∀ s ∈ others, Plain s)
    (heq : canonicalName (joinSegments segments) = canonicalName (joinSegments others)) :
    segments = others := by
  rw [canonicalName_joinSegments hne h, canonicalName_joinSegments hne' h'] at heq
  exact intercalate_dot_inj hne hne' (fun s hs => (h s hs).undotted) (fun s hs => (h' s hs).undotted)
    heq

/-- The names of the dimensions and of the members. -/
def CubeDescription.names (d : CubeDescription) : List String :=
  d.dimensions.map DimensionDescription.name ++ d.members.map MemberDescription.name

namespace MemoryCube

variable {c : MemoryCube} {d : CubeDescription}

/-- **The unique name of a member** is made of the names of its dimension, of the members above it
and its own. -/
theorem exists_segments (hb : c.Built d) (hc : c.Filled d) {m : Member} (hm : m ∈ c.members) :
    ∃ segments, segments ≠ [] ∧ joinSegments segments = m.label.uniqueName
      ∧ ∀ s ∈ segments, s ∈ d.names := by
  induction hdepth : m.depth using Nat.strongRecOn generalizing m with
  | ind depth ih =>
    obtain ⟨l, hl, hmem⟩ := hc.exists_level hm
    obtain ⟨md, ordinal, hmd, hplace⟩ := Level.mem_membersOf.1 hmem
    obtain ⟨dim, hdim, _, _, -, rfl⟩ :=
      CubeDescription.mem_toLevels.1 (mem_of_levelNamed? hl).1
    have hname : md.name ∈ d.names :=
      List.mem_append_right _ (List.mem_map_of_mem (List.mem_filter.1 (List.mem_of_getElem? hmd)).1)
    have hunique : m.label.uniqueName
        = m.parent.getD (quoteSegment dim.name) ++ "." ++ quoteSegment md.name := by
      rw [hplace]
      rfl
    rw [hunique]
    cases hparent : m.parent with
    | none =>
      refine ⟨[dim.name, md.name], List.cons_ne_nil _ _, rfl, ?_⟩
      refine List.forall_mem_cons.2 ⟨?_, List.forall_mem_singleton.2 hname⟩
      exact List.mem_append_left _ (List.mem_map_of_mem hdim)
    | some parent =>
      obtain ⟨-, p, hp, rfl, hpdepth⟩ := (hb.members m hm).parent parent hparent
      obtain ⟨segments, hne, hjoin, hnames⟩ := ih p.depth (by omega) hp rfl
      refine ⟨segments ++ [md.name], List.append_ne_nil_of_left_ne_nil hne _, ?_, ?_⟩
      · rw [joinSegments_append_singleton hne, hjoin]
        rfl
      · exact List.forall_mem_append.2 ⟨hnames, List.forall_mem_singleton.2 hname⟩

variable (c) in
/-- Whether canonical names tell members apart as their unique names do. -/
def CanonicalApart : Prop := ∀ m ∈ c.members, ∀ n ∈ c.members,
  canonicalName m.label.uniqueName = canonicalName n.label.uniqueName →
    m.label.uniqueName = n.label.uniqueName

/-- **Plain names** make canonical names tell members apart. -/
theorem canonicalApart_of_plain (hb : c.Built d) (hc : c.Filled d)
    (hplain : ∀ s ∈ d.names, Plain s) : c.CanonicalApart := by
  intro m hm n hn h
  obtain ⟨segments, hne, hjoin, hnames⟩ := exists_segments hb hc hm
  obtain ⟨others, hne', hjoin', hnames'⟩ := exists_segments hb hc hn
  rw [← hjoin, ← hjoin'] at h ⊢
  rw [eq_of_canonicalName_joinSegments hne hne' (fun s hs => hplain s (hnames s hs))
    (fun s hs => hplain s (hnames' s hs)) h]

/-! ### Rows -/

variable (c) in
/-- Whether two observations contribute to the same row of a result. -/
def ShareRow (q : PlanParameters) (result : RowSet) (f f' : Fact) : Prop :=
  ∃ row ∈ result.rows, c.Contributes q f (rowKey q row) ∧ c.Contributes q f' (rowKey q row)

variable {q : PlanParameters} {result : RowSet} {f f' : Fact} {ancestors ancestors' : List Member}

/-- An observation contributes to the row of the canonical names of its ancestors only. -/
theorem contributes_iff_of_rolledTo (hc : c.Built d) (hkept : c.Kept q.dice f)
    (h : List.Forall₂ (c.RolledTo f) q.levels ancestors) {key : List String} :
    c.Contributes q f key ↔ key = ancestors.map fun a => canonicalName a.label.uniqueName := by
  have hself : c.Contributes q f (ancestors.map fun a => canonicalName a.label.uniqueName) :=
    ⟨hkept, List.forall₂_map_right_iff.2 (h.imp fun _ a ha => ⟨a, ha, rfl⟩)⟩
  constructor
  · exact hself.key_eq hc
  · rintro rfl
    exact hself

theorem RolledTo.member? {level : Level} {a : Member} (h : c.RolledTo f level a) :
    c.member? a.label.uniqueName = some a := by
  obtain ⟨m, hm, hascends⟩ := h
  exact hascends.member? (member?_of_mem_factMembers (List.mem_of_find?_eq_some hm))

/-- **Observations share a row** if and only if their ancestors have the same canonical names. -/
theorem shareRow_iff_canonicalName (hc : c.Built d) (hresult : c.Partitioned q result)
    (hf : f ∈ c.facts) (hkept : c.Kept q.dice f) (hkept' : c.Kept q.dice f')
    (h : List.Forall₂ (c.RolledTo f) q.levels ancestors)
    (h' : List.Forall₂ (c.RolledTo f') q.levels ancestors') :
    c.ShareRow q result f f' ↔ ancestors.map (fun a => canonicalName a.label.uniqueName)
      = ancestors'.map fun a => canonicalName a.label.uniqueName := by
  constructor
  · rintro ⟨row, -, hrow, hrow'⟩
    exact ((contributes_iff_of_rolledTo hc hkept h).1 hrow).symm.trans
      ((contributes_iff_of_rolledTo hc hkept' h').1 hrow')
  · intro heq
    obtain ⟨front, row, back, hsplit, hkey, -⟩ :=
      hresult.once f hf _ ((contributes_iff_of_rolledTo hc hkept h).2 rfl)
    refine ⟨row, ?_, ?_, ?_⟩
    · rw [hsplit]
      exact List.mem_append_right _ List.mem_cons_self
    · exact (contributes_iff_of_rolledTo hc hkept h).2 hkey
    · exact (contributes_iff_of_rolledTo hc hkept' h').2 (hkey.trans heq)

/-- If canonical names tell members apart, they tell ancestors apart. -/
theorem CanonicalApart.ancestors_eq (hcanonical : c.CanonicalApart) {levels : List Level}
    (h : List.Forall₂ (c.RolledTo f) levels ancestors)
    (h' : List.Forall₂ (c.RolledTo f') levels ancestors')
    (heq : ancestors.map (fun a => canonicalName a.label.uniqueName)
      = ancestors'.map fun a => canonicalName a.label.uniqueName) : ancestors = ancestors' := by
  induction h generalizing ancestors' with
  | nil =>
    cases h'
    rfl
  | @cons level a levels ancestors ha _ ih =>
    cases h' with
    | @cons _ a' _ ancestors' ha' hrest =>
      obtain ⟨hname, hnames⟩ := List.cons.inj heq
      have hunique := hcanonical a (mem_of_member? ha.member?).1 a' (mem_of_member? ha'.member?).1
        hname
      -- both ancestors are found by the same unique name
      have hsame := ha.member?
      rw [hunique, ha'.member?] at hsame
      rw [Option.some.inj hsame, ih hrest hnames]

/-- **When observations share a row.**  Two observations that are kept and have ancestors at all
levels contribute to the same row if and only if these have the same canonical names.  If canonical
names tell members apart, in particular if all names are plain, they share a row if and only if they
have the same ancestors. -/
theorem shareRow_iff (hbuild : d.build = .ok c) {plan : Plan}
    (hone : (plan.operators.map Operator.name).Nodup) (h : c.execute plan = .ok result) :
    ∃ q, plan.Asks q ∧ ∀ f ∈ c.facts, ∀ f' ∈ c.facts,
      c.Kept q.dice f → c.Kept q.dice f' → ∀ ancestors ancestors',
      List.Forall₂ (c.RolledTo f) q.levels ancestors →
      List.Forall₂ (c.RolledTo f') q.levels ancestors' →
        (c.ShareRow q result f f' ↔ ancestors.map (fun a => canonicalName a.label.uniqueName)
          = ancestors'.map fun a => canonicalName a.label.uniqueName)
        ∧ (c.CanonicalApart ∨ (∀ s ∈ d.names, Plain s) →
          (c.ShareRow q result f f' ↔ ancestors = ancestors')) := by
  have hb := CubeDescription.built hbuild
  obtain ⟨q, hq, hresult⟩ := hb.partitioned hone h
  refine ⟨q, hq, fun f hf f' _ hkept hkept' ancestors ancestors' hrolled hrolled' => ?_⟩
  have hshare := shareRow_iff_canonicalName hb hresult hf hkept hkept' hrolled hrolled'
  refine ⟨hshare, fun happart => hshare.trans ⟨fun heq => ?_, fun heq => heq ▸ rfl⟩⟩
  have hcanonical : c.CanonicalApart :=
    happart.elim id (canonicalApart_of_plain hb (CubeDescription.filled hbuild))
  exact hcanonical.ancestors_eq hrolled hrolled' heq

/-- Ancestors that have been computed. -/
theorem forall₂_rolledTo_of_mapM (hc : c.Built d) {levels : List Level}
    (h : levels.mapM (c.factAncestor? f) = some ancestors) :
    List.Forall₂ (c.RolledTo f) levels ancestors :=
  (Option.mapM_eq_some.1 h).imp fun _ _ => (factAncestor?_eq_some_iff_rolledTo hc).1

/-- The cities and years of the visits. -/
def visitsCities : List Level := [visitsLevel "Geo" "City" 1, visitsLevel "Time" "Year" 0]

/-- The ancestors of a visit at these levels. -/
def visitsAncestors (city : String) : List Member :=
  (visitsCities.mapM (visitsCube.factAncestor? ⟨[city, "[Time].[2020]"], []⟩)).getD []

set_option maxRecDepth 100000 in
/-- The visits of a city share a row, and those of different cities do not. -/
theorem shareRow_iff_visits : ∃ result q,
    visitsCube.execute (visitsPlan (visitsLevel "Geo" "City" 1)) = .ok result
      ∧ (visitsPlan (visitsLevel "Geo" "City" 1)).Asks q
      ∧ ∀ f ∈ visitsCube.facts, ∀ f' ∈ visitsCube.facts,
        f.members = ["[Geo].[AT].[Linz]", "[Time].[2020]"] →
        (f'.members = ["[Geo].[AT].[Linz]", "[Time].[2020]"] →
            visitsCube.ShareRow q result f f')
          ∧ (f'.members = ["[Geo].[AT].[Graz]", "[Time].[2020]"] →
            ¬ visitsCube.ShareRow q result f f') := by
  have hb := CubeDescription.built build_visits
  have hok : (visitsCube.execute (visitsPlan (visitsLevel "Geo" "City" 1))).isOk = true := by
    decide +kernel
  have hexecute := Outcome.eq_ok_get hok
  obtain ⟨q, hq, hshare⟩ := shareRow_iff build_visits (by decide) hexecute
  have hread : readAll Level (rowSetOf visitsCities) = .ok visitsCities := by decide +kernel
  have hlevels : q.levels = visitsCities :=
    Except.ok.inj ((hq.levels _ _ List.mem_cons_self).symm.trans hread)
  have hkept : ∀ f, visitsCube.Kept q.dice f := by
    refine fun f => .inl (hq.noDice fun _ _ h => ?_)
    simp [visitsPlan] at h
  have hcanonical : visitsCube.CanonicalApart := by
    unfold CanonicalApart
    decide +kernel
  have hcomputed : ∀ city ∈ ["[Geo].[AT].[Linz]", "[Geo].[AT].[Graz]"], ∀ f ∈ visitsCube.facts,
      f.members = [city, "[Time].[2020]"] →
        visitsCities.mapM (visitsCube.factAncestor? f) = some (visitsAncestors city) := by
    decide +kernel
  have hne : visitsAncestors "[Geo].[AT].[Linz]" ≠ visitsAncestors "[Geo].[AT].[Graz]" := by
    decide +kernel
  refine ⟨_, q, hexecute, hq, fun f hf f' hf' hlinz => ?_⟩
  have hrolled := forall₂_rolledTo_of_mapM hb (hcomputed _ (by decide) f hf hlinz)
  rw [← hlevels] at hrolled
  constructor
  · intro hlinz'
    have hrolled' := forall₂_rolledTo_of_mapM hb (hcomputed _ (by decide) f' hf' hlinz')
    rw [← hlevels] at hrolled'
    exact ((hshare f hf f' hf' (hkept f) (hkept f') _ _ hrolled hrolled').2 (.inl hcanonical)).2 rfl
  · intro hgraz hrow
    have hrolled' := forall₂_rolledTo_of_mapM hb (hcomputed _ (by decide) f' hf' hgraz)
    rw [← hlevels] at hrolled'
    exact hne (((hshare f hf f' hf' (hkept f) (hkept f') _ _ hrolled hrolled').2
      (.inl hcanonical)).1 hrow)

end MemoryCube

/-! ### Plans of statements -/

/-- **The plan of a statement** has one operator of each kind. -/
theorem Connection.nodup_planned {σ : Type} (config : Config) (engine : Engine σ) (state : σ)
    (calls : List Call) {statement : Select Expr} {query : Query} {plan : Plan}
    (h : ((Connection.after { config, engine, state } calls).run (·.planned statement)).1
      = .ok (query, plan)) : (plan.operators.map Operator.name).Nodup := by
  obtain ⟨-, parts, -, rfl⟩ :=
    (ensures_run (Store.ensures_planned (Engine.lists_named _) statement)
      (only_after (Engine.lists_named _) Shelves.only_empty calls)).2 _ h
  change ["Rollup", "Slice", "Dice", "Projection"].Nodup
  decide

namespace MemoryEngine

open MemoryCube

/-- Sales in two countries, one of whose names looks like an escape of the other. -/
def aliases : CubeDescription where
  name := "Sales"
  dimensions := [⟨"Geo", .other, ["Country"]⟩]
  members := [⟨"[Geo].[Country]", "A", none⟩, ⟨"[Geo].[Country]", "%41", none⟩]
  measures := [.stored "Amount" .sum]
  facts := [⟨["[Geo].[A]"], [("Amount", 2)]⟩, ⟨["[Geo].[%41]"], [("Amount", 3)]⟩]

set_option maxRecDepth 100000 in
theorem isOk_aliases : aliases.build.isOk = true := by decide +kernel

/-- The cube of these sales. -/
def aliasesCube : MemoryCube := aliases.build.get isOk_aliases

/-- The sales by country. -/
def countriesStatement : Select Expr where
  definitions := []
  axes := [⟨.index 0, false, .call "Members" .property [named ["Geo", "Country"]]⟩]
  source := named ["Sales"]
  slicer := none

set_option maxRecDepth 100000 in
theorem isOk_planned_countries : (((ofCubes "LdCatalog" "LdSchema" [aliasesCube]).connection {}).run
    (·.planned countriesStatement)).1.isOk = true := by
  decide +kernel

/-- The query and the plan of the sales by country. -/
def countriesQuery : Query × Plan := Outcome.get _ isOk_planned_countries

set_option maxRecDepth 100000 in
theorem isOk_parameters_countries : (PlanParameters.ofPlan countriesQuery.2).isOk = true := by
  decide +kernel

/-- What the plan asks for. -/
def countriesParameters : PlanParameters := Outcome.get _ isOk_parameters_countries

/-- The ancestors of the sales in a country. -/
def countryAncestors (country : String) : List Member :=
  (countriesParameters.levels.mapM (aliasesCube.factAncestor? ⟨[country], []⟩)).getD []

set_option maxRecDepth 100000 in
/-- **Observations of different members may share a row.**  The unique names of the two countries
differ, and the plan of the statement rolls up to countries, but the sales of both are in one
row. -/
theorem not_separated :
    aliases.build = .ok aliasesCube
      ∧ (aliasesCube.members.map fun m => m.label.uniqueName).Nodup
      ∧ (((ofCubes "LdCatalog" "LdSchema" [aliasesCube]).connection {}).run
        (·.planned countriesStatement)).1 = .ok countriesQuery
      ∧ ∃ result q, aliasesCube.execute countriesQuery.2 = .ok result ∧ countriesQuery.2.Asks q
        ∧ ∃ f ∈ aliasesCube.facts, ∃ f' ∈ aliasesCube.facts,
          aliasesCube.Kept q.dice f ∧ aliasesCube.Kept q.dice f'
          ∧ ∃ ancestors ancestors', List.Forall₂ (aliasesCube.RolledTo f) q.levels ancestors
            ∧ List.Forall₂ (aliasesCube.RolledTo f') q.levels ancestors'
            ∧ aliasesCube.ShareRow q result f f' ∧ ancestors ≠ ancestors' := by
  have hbuild : aliases.build = .ok aliasesCube := Outcome.eq_ok_get isOk_aliases
  have hb := CubeDescription.built hbuild
  have hok : (aliasesCube.execute countriesQuery.2).isOk = true := by decide +kernel
  have hexecute := Outcome.eq_ok_get hok
  have hq : PlanParameters.ofPlan countriesQuery.2 = .ok countriesParameters :=
    Outcome.eq_ok_get isOk_parameters_countries
  have hplanned : (((ofCubes "LdCatalog" "LdSchema" [aliasesCube]).connection {}).run
      (·.planned countriesStatement)).1 = .ok countriesQuery :=
    Outcome.eq_ok_get isOk_planned_countries
  have hone : (countriesQuery.2.operators.map Operator.name).Nodup :=
    Connection.nodup_planned {} (.ofAnswers (ofCubes "LdCatalog" "LdSchema" [aliasesCube]).answer)
      () [] (hplanned.trans (congrArg Except.ok (Prod.eta countriesQuery).symm))
  obtain ⟨hnone, hne⟩ : countriesParameters.dice = []
      ∧ countryAncestors "[Geo].[A]" ≠ countryAncestors "[Geo].[%41]" := by
    decide +kernel
  have hdice : (countriesParameters.dice.mapM fun tuple => tuple.mapM aliasesCube.resolveMember)
      = .ok [] := by
    rw [hnone]
    rfl
  obtain ⟨hcolumns, hrows⟩ := (execute_eq_ok hq hdice).1 hexecute
  have hresult := partitioned_of_groups hrows hb hdice hcolumns
  obtain ⟨f, hf, hrolled⟩ : ∃ f ∈ aliasesCube.facts, countriesParameters.levels.mapM
      (aliasesCube.factAncestor? f) = some (countryAncestors "[Geo].[A]") := by
    decide +kernel
  obtain ⟨f', hf', hrolled'⟩ : ∃ f ∈ aliasesCube.facts, countriesParameters.levels.mapM
      (aliasesCube.factAncestor? f) = some (countryAncestors "[Geo].[%41]") := by
    decide +kernel
  have hcanonical : (countryAncestors "[Geo].[A]").map (fun a => canonicalName a.label.uniqueName)
      = (countryAncestors "[Geo].[%41]").map fun a => canonicalName a.label.uniqueName := by
    decide +kernel
  have hancestors := forall₂_rolledTo_of_mapM hb hrolled
  have hancestors' := forall₂_rolledTo_of_mapM hb hrolled'
  refine ⟨hbuild, by decide +kernel, hplanned, _, countriesParameters, hexecute,
    Plan.asks_of_ofPlan hone hq, f, hf, f', hf', .inl hnone, .inl hnone, _, _, hancestors,
    hancestors', ?_, hne⟩
  exact (shareRow_iff_canonicalName hb hresult hf (.inl hnone) (.inl hnone) hancestors
    hancestors').2 hcanonical

end MemoryEngine

end Datacube
