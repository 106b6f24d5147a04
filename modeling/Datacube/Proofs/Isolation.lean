import Datacube.Proofs.CellValues
import Datacube.Proofs.Comparisons
import Datacube.Proofs.RollUps

/-!
# Cubes do not see each other

An engine that serves more cubes answers what is asked about a cube as before, as long as names tell
the cubes apart.  So a statement over a cube has the same plan, the same axes and the same cells in
both engines, or it fails in the same way, whatever the connections have been used for before.

## Main definitions

* `MemoryEngine.ToldApart` — whether names tell the cubes of an engine apart.

## Main results

* `MemoryEngine.ToldApart.eq_of_isNamed` — **a name is that of one cube at most**.
* `MemoryEngine.extends_ofCubes` — **an engine with more cubes** lists the same for a cube.
* `MemoryEngine.isolated` — **statements over a cube** do not depend on other cubes.
-/

namespace Datacube

namespace MemoryEngine

/-- Whether names tell cubes in memory apart: they are distinct, and none of them is empty or could
be taken for a quoted name. -/
structure ToldApart (cubes : List MemoryCube) : Prop where
  built : ∀ c ∈ cubes, ∃ d : CubeDescription, d.build = .ok c
  distinct : (cubes.map fun c => c.cube.label.name).Nodup
  named : ∀ c ∈ cubes, c.cube.label.name ≠ ""
  plain : ∀ c ∈ cubes, '[' ∉ c.cube.label.name.toList ∧ ']' ∉ c.cube.label.name.toList

variable {catalogName schemaName : String} {cubes cubes' : List MemoryCube} {c c' : MemoryCube}
  {name : String}

/-! ### Names of cubes -/

namespace ToldApart

variable (h : ToldApart cubes)

include h

theorem label_eq (hc : c ∈ cubes) :
    c.cube.label = .ofName (quoteSegment c.cube.label.name) c.cube.label.name := by
  obtain ⟨d, hd⟩ := h.built c hc
  rw [(CubeDescription.built hd).cube]
  rfl

/-- A name is not a quoted one. -/
theorem ne_quoteSegment (hc : c ∈ cubes) (name : String) :
    c.cube.label.name ≠ quoteSegment name := by
  intro hname
  have hplain := (h.plain c hc).1
  rw [hname, quoteSegment, String.toList_ofList] at hplain
  exact hplain List.mem_cons_self

/-- The names to which a cube answers. -/
theorem isNamed_iff (hc : c ∈ cubes) {name : String} :
    isNamed c.cube name = true
      ↔ c.cube.label.name = name ∨ quoteSegment c.cube.label.name = name :=
  Cube.isNamed_iff (congrArg Label.uniqueName (h.label_eq hc))

theorem eq_of_name (hc : c ∈ cubes) (hc' : c' ∈ cubes)
    (hname : c.cube.label.name = c'.cube.label.name) : c = c' :=
  List.inj_on_of_nodup_map h.distinct hc hc' hname

/-- **A name is that of one cube at most.** -/
theorem eq_of_isNamed (hc : c ∈ cubes) (hc' : c' ∈ cubes) (hn : isNamed c.cube name = true)
    (hn' : isNamed c'.cube name = true) : c = c' := by
  rcases (h.isNamed_iff hc).1 hn with rfl | rfl
  · rcases (h.isNamed_iff hc').1 hn' with hname | hname
    · exact h.eq_of_name hc hc' hname.symm
    · exact absurd hname.symm (h.ne_quoteSegment hc _)
  · rcases (h.isNamed_iff hc').1 hn' with hname | hname
    · exact absurd hname (h.ne_quoteSegment hc' _)
    · exact h.eq_of_name hc hc' (quoteSegment_inj hname).symm

end ToldApart

/-! ### Engines with more cubes -/

/-- A cube as it is served in a schema of a catalog. -/
private def registered (catalogName schemaName : String) (c : MemoryCube) : MemoryCube :=
  { c with cube := { c.cube with catalogName, schemaName } }

/-- The names of cubes. -/
def namesOf (cubes : List MemoryCube) : List String := cubes.map fun c => c.cube.label.name

/-- The cubes that an engine lists to a connection. -/
def cubesOf (catalogName schemaName : String) (config : Config) (cubes : List MemoryCube) :
    List Cube :=
  ((ofCubes catalogName schemaName cubes).selected
    { catalog := some config.catalog, schema := some config.schema }).map MemoryCube.cube

private theorem selected_ofCubes (r : Restrictions) :
    (ofCubes catalogName schemaName cubes).selected r
      = (cubes.filter fun c => selects r (registered catalogName schemaName c)).map
        (registered catalogName schemaName) := by
  rw [selected, cubes_ofCubes]
  exact List.filter_map

private theorem mem_cubesOf {config : Config} {x : Cube} :
    x ∈ cubesOf catalogName schemaName config cubes ↔ ∃ c ∈ cubes,
      selects { catalog := some config.catalog, schema := some config.schema }
          (registered catalogName schemaName c) = true
        ∧ (registered catalogName schemaName c).cube = x := by
  rw [cubesOf, selected_ofCubes, List.map_map, List.mem_map]
  simp only [List.mem_filter, Function.comp_apply, and_assoc]

private theorem read_served (h : ToldApart cubes) (hc : c ∈ cubes) :
    Record.read (rowOf (registered catalogName schemaName c).cube)
      = .ok (registered catalogName schemaName c).cube := by
  have hlabel : (registered catalogName schemaName c).cube.label = c.cube.label := rfl
  rw [h.label_eq hc] at hlabel
  refine Cube.read_rowOf_of_ne_empty (h.named c hc) ?_ ?_
  · rw [hlabel]
    exact h.named c hc
  · rw [hlabel]
    rfl

/-- **The cubes that a connection lists.** -/
private theorem answer_cubes (h : ToldApart cubes) (config : Config) :
    ((ofCubes catalogName schemaName cubes).connection config).store.answer
        (ofCubes catalogName schemaName cubes).answer .cubes
      = .ok (cubesOf catalogName schemaName config cubes) := by
  refine readAll_rowSetOf.2 (List.forall₂_same.2 fun x hx => ?_)
  obtain ⟨c, hc, -, rfl⟩ := mem_cubesOf.1 hx
  exact read_served h hc

section

variable (hsub : cubes.Sublist cubes') (h : ToldApart cubes')

include hsub h

theorem ToldApart.sublist : ToldApart cubes where
  built c hc := h.built c (hsub.subset hc)
  distinct := h.distinct.sublist (hsub.map _)
  named c hc := h.named c (hsub.subset hc)
  plain c hc := h.plain c (hsub.subset hc)

/-- What answers to the name of a cube is that cube. -/
private theorem mem_of_isNamed (hname : name ∈ namesOf cubes) (hc : c ∈ cubes')
    (hn : isNamed c.cube name = true) : c ∈ cubes := by
  obtain ⟨c₀, hc₀, rfl⟩ := List.mem_map.1 hname
  have hself := (h.isNamed_iff (hsub.subset hc₀)).2 (.inl rfl)
  rwa [h.eq_of_isNamed hc (hsub.subset hc₀) hn hself]

/-- **What is selected for a cube** is the same in an engine with more cubes. -/
private theorem selected_eq (hname : name ∈ namesOf cubes) {r : Restrictions}
    (hr : r.cube = some name) :
    (ofCubes catalogName schemaName cubes).selected r
      = (ofCubes catalogName schemaName cubes').selected r := by
  have hfilter : cubes.filter (fun c => selects r (registered catalogName schemaName c))
      = cubes'.filter fun c => selects r (registered catalogName schemaName c) := by
    refine filter_eq_of_sublist hsub h.distinct.of_map fun c hc hselects => ?_
    rw [selects, hr, Bool.and_eq_true] at hselects
    exact mem_of_isNamed hsub h hname hc hselects.2
  rw [selected_ofCubes, selected_ofCubes, hfilter]

private theorem list_eq {q : Inquiry} (hq : q.listing.Concerns (namesOf cubes) q.key)
    (r : Restrictions) (hr : r.cube = q.cube?.map fun x => x.label.name) :
    (ofCubes catalogName schemaName cubes).list r q.listing
      = (ofCubes catalogName schemaName cubes').list r q.listing := by
  cases q with
  | databases | catalogs | schemas | cubes => exact hq.elim
  | dimensions x | measures x | hierarchies x _ | levels x _ | members x _ =>
    simp only [Inquiry.listing, list, selected_eq hsub h hq hr]

/-- **An engine with more cubes** lists the same for a cube. -/
theorem extends_ofCubes (config : Config) :
    Store.Extends (namesOf cubes) (ofCubes catalogName schemaName cubes).answer
      (ofCubes catalogName schemaName cubes').answer (cubesOf catalogName schemaName config cubes)
      (cubesOf catalogName schemaName config cubes')
      ((ofCubes catalogName schemaName cubes).connection config).store
      ((ofCubes catalogName schemaName cubes').connection config).store where
  left := rfl
  right := rfl
  listLeft := answer_cubes (h.sublist hsub) config
  listRight := answer_cubes h config
  answer q hq := by
    have hrestrictions :
        ((ofCubes catalogName schemaName cubes').connection config).store.restrictions q
          = ((ofCubes catalogName schemaName cubes).connection config).store.restrictions q := by
      cases q <;> rfl
    simp only [Store.answer, Engine.answerTo, answer, hrestrictions,
      list_eq hsub h hq _ (Store.cube_restrictions _ q)]
  find name := by
    refine find?_eq_filter_of_unique ?_ fun x => ?_
    · intro x hx y hy hn hn'
      obtain ⟨c, hc, -, rfl⟩ := mem_cubesOf.1 hx
      obtain ⟨c', hc', -, rfl⟩ := mem_cubesOf.1 hy
      rw [h.eq_of_isNamed hc hc' hn hn']
    · rw [mem_cubesOf, mem_cubesOf, decide_eq_true_eq]
      constructor
      · rintro ⟨c, hc, hselects, rfl⟩
        exact ⟨⟨c, hsub.subset hc, hselects, rfl⟩, List.mem_map.2 ⟨c, hc, rfl⟩⟩
      · rintro ⟨⟨c, hc, hselects, rfl⟩, hname⟩
        have hself := (h.isNamed_iff hc).2 (.inl rfl)
        exact ⟨c, mem_of_isNamed hsub h hname hc hself, hselects, rfl⟩

/-- **A plan over a cube** is executed alike. -/
private theorem execute_eq {config : Config} {x : Cube} (hname : x.label.name ∈ namesOf cubes)
    (hx : x ∈ cubesOf catalogName schemaName config cubes') {plan : Plan}
    (hplan : plan.cube = rowSetOf [x]) :
    (ofCubes catalogName schemaName cubes).answer (.execute plan)
      = (ofCubes catalogName schemaName cubes').answer (.execute plan) := by
  obtain ⟨c, hc, -, rfl⟩ := mem_cubesOf.1 hx
  have hself := (h.isNamed_iff hc).2 (.inl rfl)
  have honly : ∀ c' ∈ cubes', isNamed c'.cube c.cube.label.name = true → c' = c :=
    fun c' hc' hn => h.eq_of_isNamed hc' hc hn hself
  have hmem : c ∈ cubes := mem_of_isNamed hsub h hname hc hself
  have hread := @read_served catalogName schemaName _ _ h hc
  have hless := @answer_execute catalogName schemaName _ _
    (fun c' hc' => honly c' (hsub.subset hc')) hmem _ _ hread rfl _ hplan
  have hmore := @answer_execute catalogName schemaName _ _ honly hc _ _ hread rfl _ hplan
  exact hless.trans hmore.symm

variable (catalogName schemaName) in
/-- **Statements over a cube do not depend on other cubes.**  Names tell the cubes of an engine
apart, and some of them are served by another engine as well.  After the same uses of two
connections, whatever they are about, a statement over one of these cubes has the same plan and the
same result in both engines, with the same axes, measures and cells, or the same fault. -/
theorem isolated (config : Config) (calls : List Call) {statement : Select Expr} {i : Identifier}
    (hsource : statement.source = .identifier i)
    (hfrom : ∃ c ∈ cubes, isNamed c.cube i.name = true) :
    ((((ofCubes catalogName schemaName cubes).connection config).after calls).run
        (·.execute statement)).1
      = ((((ofCubes catalogName schemaName cubes').connection config).after calls).run
        (·.execute statement)).1
    ∧ ((((ofCubes catalogName schemaName cubes).connection config).after calls).run
        (·.explain statement)).1
      = ((((ofCubes catalogName schemaName cubes').connection config).after calls).run
        (·.explain statement)).1 := by
  have hsees : statement.source.Sees (namesOf cubes)
      (cubesOf catalogName schemaName config cubes') := by
    rw [hsource]
    intro x hx
    obtain ⟨c, hc, hn⟩ := hfrom
    obtain ⟨c', hc', -, rfl⟩ := mem_cubesOf.1 (List.mem_of_find?_eq_some hx)
    have hn' := List.find?_some hx
    rw [h.eq_of_isNamed (hsub.subset hc) hc' hn hn'] at hc
    exact List.mem_map.2 ⟨c', hc, rfl⟩
  refine Connection.run_after (extends_ofCubes hsub h config) .empty calls hsees ?_
  rintro x parts slicer hname (hx | hobject)
  · exact execute_eq hsub h hname hx rfl
  · cases hsource.symm.trans hobject

end

theorem toldApart_visits : ToldApart [MemoryCube.visitsCube, salesCube] where
  built := List.forall_mem_cons.2 ⟨⟨_, MemoryCube.build_visits⟩,
    List.forall_mem_singleton.2 ⟨_, build_sales⟩⟩
  distinct := by decide +kernel
  named := by decide +kernel
  plain := by decide +kernel

/-- The sales in a year, with and without the cube of the visits. -/
theorem isolated_visits :
    ((((ofCubes "LdCatalog" "LdSchema" [MemoryCube.visitsCube, salesCube]).connection {}).after
      [.execute yearStatement]).run (·.execute yearStatement)).1 = .ok yearCells := by
  have hsub : [salesCube].Sublist [MemoryCube.visitsCube, salesCube] := .cons _ (.refl _)
  have hfrom : ∃ c ∈ [salesCube], isNamed c.cube (⟨["Sales"]⟩ : Identifier).name = true :=
    ⟨salesCube, List.mem_cons_self, by decide +kernel⟩
  have hexecute :
      ((((ofCubes "LdCatalog" "LdSchema" [salesCube]).connection {}).after
        [.execute yearStatement]).run (·.execute yearStatement)).1 = .ok yearCells :=
    Outcome.eq_ok_get isOk_execute_year
  have hsource : yearStatement.source = .identifier ⟨["Sales"]⟩ := rfl
  obtain ⟨hsame, -⟩ := isolated "LdCatalog" "LdSchema" hsub toldApart_visits {}
    [.execute yearStatement] hsource hfrom
  exact hsame.symm.trans hexecute

end MemoryEngine

end Datacube
