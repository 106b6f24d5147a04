import Datacube.Proofs.PlanLookups
import Datacube.Proofs.Transparency

/-!
# Answers that are kept

If the answers of an engine depend on the requests alone, all that a store keeps in a slot is the
answer to something that was asked for there.  Every use of a connection preserves this, the
evaluation of statements included, so that lookups find what the engine answers.  Only the levels of
a hierarchy may be the answer for another hierarchy, one with the same unique name.

## Main definitions

* `Store.Answered` — whether items are the answer to something that is kept in a slot.
* `Store.findings` — what lookups find in a store that keeps answers only.

## Main results

* `Connection.answered_after` — **a store keeps answers only**, after any uses of a connection.
* `Store.finds` — **lookups find what is answered**.
* `Store.ensures_looked_up` — the parts of the plan of a statement.
-/

namespace Datacube

variable {σ : Type} {answers : Request → Outcome RowSet}

namespace Store

/-- Whether items are the answer to something that is kept in a slot. -/
def Answered (s : Store σ) (answers : Request → Outcome RowSet) (l : Listing) (key : l.Key)
    (items : List l.Item) : Prop :=
  ∃ q : Inquiry, q.slot = ⟨l, key⟩ ∧ Engine.answerTo answers l (s.restrictions q) = .ok items

variable {s : Store σ}

/-- What is kept for something is its answer if nothing else is kept in the slot. -/
theorem Answered.eq_answer {q : Inquiry} {items : List q.listing.Item}
    (h : s.Answered answers q.listing q.key items)
    (hq : ∀ q' : Inquiry, q'.slot = q.slot → q'.Agrees q) : s.answer answers q = .ok items := by
  obtain ⟨q', hslot, hitems⟩ := h
  rw [(hq q' hslot).restrictions_eq hslot s] at hitems
  exact hitems

/-- What is kept for the levels of a hierarchy is the answer for some hierarchy of its unique
name. -/
theorem Answered.exists_levels {x : Cube} {h : Hierarchy} {ls : List Level}
    (hls : s.Answered answers .levels (x.label.name, h.label.uniqueName) ls) :
    ∃ h' : Hierarchy, h'.label.uniqueName = h.label.uniqueName
      ∧ s.answer answers (.levels x h') = .ok ls := by
  obtain ⟨q, hslot, hitems⟩ := hls
  obtain ⟨hlisting, hkey⟩ := Sigma.mk.inj hslot
  cases q <;> cases hlisting
  rename_i x' h'
  obtain ⟨hname, hunique⟩ := Prod.mk.inj (eq_of_heq hkey)
  refine ⟨h', hunique, ?_⟩
  -- the request is restricted to the name of the cube only
  have hwithin : s.withinCube x' = s.withinCube x := by rw [withinCube, withinCube, hname]
  rw [restrictions, hwithin] at hitems
  exact hitems

/-- Whether a cube is among those that are listed. -/
def Among (s : Store σ) (answers : Request → Outcome RowSet) (_ : Cube) : SchemaObject → Prop
  | .cube x => ∃ xs, s.answer answers .cubes = .ok xs ∧ x ∈ (xs : List Cube)
  | _ => True

/-- What lookups find in a store that keeps answers only. -/
def findings (s : Store σ) (answers : Request → Outcome RowSet) (x : Cube) : Findings where
  dimensions ds := s.answer answers (.dimensions x) = .ok ds
  hierarchy name h := h.label.uniqueName = name
    ∧ ∃ d hs, s.answer answers (.hierarchies x d) = .ok hs ∧ h ∈ (hs : List Hierarchy)
  level member l := ∃ h ls, h.label.uniqueName = member.hierarchy
    ∧ s.answer answers (.levels x h) = .ok ls
    ∧ List.find? (fun l : Level => l.label.uniqueName == member.level) ls = some l

/-- What lookups find depends on the name of the queried cube only. -/
theorem findings_congr {x x' : Cube} (h : x.label.name = x'.label.name) :
    s.findings answers x = s.findings answers x' := by
  have hwithin : s.withinCube x = s.withinCube x' := by rw [withinCube, withinCube, h]
  simp only [findings, answer, restrictions, Inquiry.listing, hwithin]
  rfl

section

variable (hs : s.engine = .ofAnswers answers)

include hs

/-- **A store that keeps answers only** answers with such, and goes on to keep nothing else. -/
theorem answered_list (q : Inquiry) : Session.Ensures (Shelves.Keeps (s.Answered answers))
    (s.list q) (s.Answered answers q.listing q.key) := by
  intro shelves state hkeeps
  have hq : ∀ items, s.answer answers q = .ok items → s.Answered answers q.listing q.key items :=
    fun items hitems => ⟨q, rfl, hitems⟩
  obtain ⟨hkeeps', hanswer⟩ := keeps_list hs hkeeps hq state
  refine ⟨hkeeps', fun items hitems => ?_⟩
  rcases hanswer with hanswer | ⟨kept, hkept, hanswer⟩
  · exact hq items (hanswer.symm.trans hitems)
  · cases hanswer.symm.trans hitems
    exact hkept

private theorem answered_dimensions (x : Cube) :
    Session.Ensures (Shelves.Keeps (s.Answered answers)) (s.dimensions x) fun ds =>
      s.answer answers (.dimensions x) = .ok ds := by
  rw [dimensions_eq_list]
  refine (Session.assurance σ _).mono (answered_list hs (.dimensions x)) fun ds hds => ?_
  exact Answered.eq_answer (q := .dimensions x) hds fun q' _ => by cases q' <;> trivial

private theorem answered_hierarchies (x : Cube) (d : Dimension) :
    Session.Ensures (Shelves.Keeps (s.Answered answers)) (s.hierarchies x d) fun hs' =>
      s.answer answers (.hierarchies x d) = .ok hs' := by
  rw [hierarchies_eq_list]
  refine (Session.assurance σ _).mono (answered_list hs (.hierarchies x d)) fun hs' hhs => ?_
  exact Answered.eq_answer (q := .hierarchies x d) hhs fun q' _ => by cases q' <;> trivial

private theorem answered_levels (x : Cube) (h : Hierarchy) :
    Session.Ensures (Shelves.Keeps (s.Answered answers)) (s.levels x h) fun ls =>
      ∃ h' : Hierarchy, h'.label.uniqueName = h.label.uniqueName
        ∧ s.answer answers (.levels x h') = .ok ls := by
  rw [levels_eq_list]
  exact (Session.assurance σ _).mono (answered_list hs (.levels x h)) fun ls hls =>
    Answered.exists_levels hls

private theorem answered_measures (x : Cube) :
    Session.Ensures (Shelves.Keeps (s.Answered answers)) (s.measures x) fun ms =>
      ∀ a ∈ ms, a.isMeasure := by
  rw [measures_eq_list]
  refine (Session.assurance σ _).mono (answered_list hs (.measures x)) fun ms hms a ha => ?_
  obtain ⟨q, -, hitems⟩ := hms
  obtain ⟨rows, -, hrows⟩ := Outcome.bind_eq_ok.1 hitems
  obtain ⟨row, -, ordinal, hread⟩ := exists_left_of_forall₂ (forall₂_readMeasures hrows) ha
  exact isMeasure_of_readMeasure hread

private theorem answered_cube? (name : String) :
    Session.Ensures (Shelves.Keeps (s.Answered answers)) (s.cube? name) fun found =>
      ∀ x ∈ found, s.Among answers x (.cube x) := by
  refine Session.ensures_bind (answered_list hs .cubes) fun xs hxs => Session.ensures_pure ?_
  intro x hx
  have hanswer : s.answer answers .cubes = .ok xs :=
    Answered.eq_answer (q := .cubes) hxs fun q' _ => by cases q' <;> trivial
  exact ⟨xs, hanswer, List.mem_of_find?_eq_some hx⟩

/-- **A store offers what is listed**, and it goes on to keep answers only. -/
theorem offers_among : s.provider.Offers
    (Session.assurance σ (Shelves.Keeps (s.Answered answers))) (s.Among answers) where
  cubes := answered_cube? hs
  dimensions x := (Session.assurance σ _).mono (answered_dimensions hs x) fun _ _ _ _ => trivial
  hierarchies x d :=
    (Session.assurance σ _).mono (answered_hierarchies hs x d) fun _ _ _ _ => trivial
  levels x h := (Session.assurance σ _).mono (answered_levels hs x h) fun _ _ _ _ => trivial
  members x l := by
    have hmembers := answered_list hs (.members x l)
    rw [← members_eq_list] at hmembers
    exact (Session.assurance σ _).mono hmembers fun _ _ _ _ => trivial
  measures x := (Session.assurance σ _).mono (answered_measures hs x) fun _ hms a ha =>
    ⟨trivial, hms a ha⟩

private theorem answered_hierarchyIn (x : Cube) (name : String) (ds : List Dimension) :
    Session.Ensures (Shelves.Keeps (s.Answered answers)) (s.provider.hierarchyIn x name ds)
      ((s.findings answers x).hierarchy name) := by
  induction ds with
  | nil => exact Session.ensures_throw
  | cons d ds ih =>
    refine Session.ensures_bind (answered_hierarchies hs x d) fun hs' hanswer => ?_
    cases hfind : hs'.find? fun h => uniqueName h == name with
    | some h =>
      obtain ⟨hmem, hname⟩ := mem_of_find?_key hfind
      exact Session.ensures_pure ⟨hname, d, hs', hanswer, hmem⟩
    | none => exact ih

/-- **Lookups find what is answered.** -/
theorem finds (x : Cube) : s.provider.Finds
    (Session.assurance σ (Shelves.Keeps (s.Answered answers))) x (s.findings answers x) where
  dimensions := answered_dimensions hs x
  hierarchy name := Session.ensures_bind (answered_dimensions hs x) fun ds _ =>
    answered_hierarchyIn hs x name ds
  levelOf member := by
    have hhierarchy : Session.Ensures (Shelves.Keeps (s.Answered answers))
        (s.provider.hierarchy x member.hierarchy)
          ((s.findings answers x).hierarchy member.hierarchy) :=
      Session.ensures_bind (answered_dimensions hs x) fun ds _ =>
        answered_hierarchyIn hs x member.hierarchy ds
    refine Session.ensures_bind hhierarchy fun h hfound => ?_
    refine Session.ensures_bind (answered_levels hs x h) fun ls ⟨h', hunique, hanswer⟩ => ?_
    rw [Provider.pick]
    cases hfind : ls.find? fun l => uniqueName l == member.level with
    | some l => exact Session.ensures_pure ⟨h', ls, hunique.trans hfound.1, hanswer, hfind⟩
    | none => exact Session.ensures_throw
  measures := (Session.assurance σ _).mono (answered_measures hs x) fun _ _ => trivial

/-- **The plan of a statement** is made of what is answered for the queried cube, which is listed
unless it stands in the statement. -/
theorem ensures_looked_up (statement : Select Expr) :
    Session.Ensures (Shelves.Keeps (s.Answered answers)) (s.planned statement)
      fun (query, plan) => statement.Knows (s.Among answers) query.cube (.cube query.cube)
        ∧ ∃ parts : PlanParts,
          parts.Found (s.findings answers query.cube) query.axes query.slicer
            ∧ plan = parts.plan query.cube query.slicer := by
  refine Session.ensures_bind ((offers_among hs).evaluateQuery statement) fun query hquery => ?_
  have hplan := (finds hs query.cube).planOfAxes query.axes query.slicer
  exact Session.ensures_bind hplan fun plan hplan =>
    Session.ensures_pure ⟨hquery.cube, hplan⟩

/-- **The result of a statement** is made with such a plan, which has been executed. -/
theorem ensures_executed (statement : Select Expr) :
    Session.Ensures (Shelves.Keeps (s.Answered answers)) (s.execute statement) fun result =>
      ∃ (query : Query) (parts : PlanParts) (rows : RowSet),
        parts.Found (s.findings answers query.cube) query.axes query.slicer
          ∧ answers (.execute (parts.plan query.cube query.slicer)) = .ok rows
          ∧ CellSet.ofResult query (parts.plan query.cube query.slicer) rows = .ok result := by
  refine Session.ensures_bind (ensures_looked_up hs statement) fun (query, plan) hplanned => ?_
  obtain ⟨-, parts, hparts, rfl⟩ := hplanned
  refine Session.ensures_bind (ensures_ask _) fun rows ⟨state, state', hrows⟩ => ?_
  rw [hs, Engine.ofAnswers_apply] at hrows
  exact (Session.assurance σ _).mono Session.ensures_mk fun result hresult =>
    ⟨query, parts, rows, hparts, congrArg Prod.fst hrows, hresult⟩

end

end Store

/-! ### Connections -/

namespace Connection

variable {c : Connection σ}

/-- **Every use of a connection** leaves its store with nothing but answers. -/
theorem answered_step (hc : c.engine = .ofAnswers answers)
    (h : c.shelves.Keeps (c.store.Answered answers)) (call : Call) :
    (c.step call).shelves.Keeps (c.store.Answered answers) := by
  have hstore : c.store.engine = .ofAnswers answers := hc
  cases hq : call.inquiry? with
  | some q =>
    rw [shelves_step c hq]
    exact (Store.answered_list hstore q c.shelves c.state h).1
  | none =>
    cases call with
    | reset => exact h.reset
    | setLocale locale => exact h.reset
    | explain statement =>
      have hexplain : Session.Ensures (Shelves.Keeps (c.store.Answered answers))
          (c.store.explain statement) fun _ => True :=
        Session.ensures_bind (Store.ensures_looked_up hstore statement) fun _ _ =>
          Session.ensures_pure trivial
      exact (ensures_run hexplain h).1
    | execute statement => exact (ensures_run (Store.ensures_executed hstore statement) h).1
    | databases | catalogs | schemas | cubes | cube _ | measures _ | dimensions _
    | hierarchies _ _ | levels _ _ | members _ _ => cases hq

/-- **A store keeps answers only**, after any uses of a connection. -/
theorem answered_after (hc : c.engine = .ofAnswers answers) (hempty : c.shelves = {})
    (calls : List Call) :
    (c.after calls).shelves.Keeps ((c.after calls).store.Answered answers) := by
  induction calls using List.reverseRecOn with
  | nil =>
    have hnone : c.shelves.Keeps (c.store.Answered answers) := hempty ▸ Shelves.keeps_empty
    exact hnone
  | append_singleton calls call ih =>
    have hafter : c.after (calls ++ [call]) = (c.after calls).step call := List.foldl_append
    rw [hafter, store_step]
    exact answered_step ((engine_after c calls).trans hc) ih call

end Connection

end Datacube
