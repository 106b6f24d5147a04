import Datacube.Proofs.Transparency

/-!
# Stores that answer alike for some cubes

Two stores whose engines list the same objects for cubes of given names keep the same in the slots
of these cubes, whatever else they are used for, and a statement over one of these cubes has the
same result in both.  What is asked about other cubes may be answered differently, but it never gets
into the slots of these ones.

## Main definitions

* `Shelves.Alike` — whether two stores keep the same for cubes of given names.
* `Session.Agree`, `Session.agreement` — whether two sessions have the same outcome.
* `Store.Extends` — whether a store lists the same as another one for the cubes of that one.
* `Expr.Sees` — whether only such cubes are found in the place of the queried cube.

## Main results

* `Store.agree_list`, `Store.apart_list` — **inquiries** about these cubes and about other ones.
* `Store.agree_planned` — **a statement over one of these cubes** is evaluated and planned alike.
* `Connection.alike_step`, `Connection.alike_after` — **any uses of two connections** keep them
  alike.
* `Connection.run_after` — so a statement over one of these cubes has the same result in both.
-/

namespace Datacube

/-! ### Slots of cubes -/

/-- Whether a slot belongs to a cube with one of the given names. -/
def Listing.Concerns (names : List String) : (l : Listing) → l.Key → Prop
  | databases, _ | catalogs, _ | schemas, _ | cubes, _ => False
  | dimensions, name | measures, name => name ∈ names
  | hierarchies, key | levels, key | members, key => key.1 ∈ names

/-- Collections with slots of cubes have more than one slot. -/
theorem Listing.Concerns.single_eq_false {names : List String} {l : Listing} {key : l.Key}
    (h : l.Concerns names key) : l.single = false := by
  cases l with
  | databases | catalogs | schemas | cubes => exact h.elim
  | dimensions | measures | hierarchies | levels | members => rfl

/-- The cube whose objects a store is asked for, if they belong to one. -/
def Inquiry.cube? : Inquiry → Option Cube
  | databases | catalogs | schemas | cubes => none
  | dimensions x | measures x | hierarchies x _ | levels x _ | members x _ => some x

/-- What is asked about a cube is kept in the slots of the cube. -/
theorem Inquiry.concerns_iff {names : List String} {q : Inquiry} {x : Cube} (h : q.cube? = some x) :
    q.listing.Concerns names q.key ↔ x.label.name ∈ names := by
  cases q with
  | databases | catalogs | schemas | cubes => cases h
  | dimensions _ | measures _ | hierarchies _ _ | levels _ _ | members _ _ =>
    cases h
    rfl

/-- The request for an answer is restricted to the cube. -/
theorem Store.cube_restrictions {σ : Type} (s : Store σ) (q : Inquiry) :
    (s.restrictions q).cube = q.cube?.map fun x => x.label.name := by
  cases q <;> rfl

/-- Whether items may be kept by a store that lists the given cubes. -/
def Listing.Holds (xs : List Cube) : (l : Listing) → l.Key → List l.Item → Prop
  | cubes, _, items => items = xs
  | measures, _, items => ∀ a : Member, a ∈ items → a.isMeasure = true
  | databases, _, _ | catalogs, _, _ | schemas, _, _ | dimensions, _, _ | hierarchies, _, _
  | levels, _, _ | members, _, _ => True

/-- Whether two stores, which list cubes of their own, keep the same for cubes of given names. -/
structure Shelves.Alike (names : List String) (xs ys : List Cube) (s t : Shelves) : Prop where
  handle : ∀ l key, s.handle l key = t.handle l key
  slot : ∀ l (h : Handle l.Key), l.Concerns names h.key →
    (Place.of l h).get s = (Place.of l h).get t
  left : s.Keeps (Listing.Holds xs)
  right : t.Keeps (Listing.Holds ys)

namespace Shelves.Alike

variable {names : List String} {xs ys : List Cube} {s t : Shelves}

/-- Nothing is kept at first. -/
theorem empty : Alike names xs ys {} {} :=
  ⟨fun _ _ => rfl, fun _ _ _ => rfl, keeps_empty, keeps_empty⟩

theorem symm (h : Alike names xs ys s t) : Alike names ys xs t s :=
  ⟨fun l key => (h.handle l key).symm, fun l g hg => (h.slot l g hg).symm, h.right, h.left⟩

theorem reset (h : Alike names xs ys s t) : Alike names xs ys s.reset t.reset where
  handle l key := by
    cases l with
    | databases | catalogs | schemas | cubes => rfl
    | dimensions | measures | hierarchies | levels | members =>
      -- a reset counts one more generation
      exact congrArg (fun g => (⟨g.generation + 1, key⟩ : Handle _)) (h.handle _ key)
  slot l g hg := by
    have hslot := h.slot l g hg
    cases l with
    | databases | catalogs | schemas | cubes => exact hg.elim
    | dimensions | measures | hierarchies | levels | members => exact hslot
  left := h.left.reset
  right := h.right.reset

/-- A slot may be given the same items in both stores. -/
theorem set (h : Alike names xs ys s t) {l : Listing} {key : l.Key} (hkey : l.Concerns names key)
    {u : Slot l.Item} (hx : ∀ items, u.items? = some items → l.Holds xs key items)
    (hy : ∀ items, u.items? = some items → l.Holds ys key items) {g : Handle l.Key}
    (hg : g = t.handle l key) :
    Alike names xs ys ((Place.of l g).set u s) ((Place.of l g).set u t) where
  handle m name := by
    rw [Place.handle_set, Place.handle_set]
    exact h.handle m name
  slot m f hf := by
    by_cases hm : m = l
    · subst hm
      by_cases hfg : f = g
      · rw [hfg, Place.get_set, Place.get_set]
      · have hl := hf.single_eq_false
        rw [Place.get_set_of_ne hl hfg, Place.get_set_of_ne hl hfg]
        exact h.slot m f hf
    · rw [Place.get_set_of_listing_ne hm, Place.get_set_of_listing_ne hm]
      exact h.slot m f hf
  left := h.left.set (hg.trans (h.handle l key).symm) hx
  right := h.right.set hg hy

/-- What a store keeps for other cubes does not matter. -/
theorem set_right (h : Alike names xs ys s t) {l : Listing} {key : l.Key}
    (hkey : ¬ l.Concerns names key) {u : Slot l.Item}
    (hy : ∀ items, u.items? = some items → l.Holds ys key items) {g : Handle l.Key}
    (hg : g = t.handle l key) : Alike names xs ys s ((Place.of l g).set u t) where
  handle m name := by
    rw [Place.handle_set]
    exact h.handle m name
  slot m f hf := by
    by_cases hm : m = l
    · subst hm
      have hne : f ≠ g := by
        rintro rfl
        rw [hg, Shelves.key_handle] at hf
        exact hkey hf
      rw [Place.get_set_of_ne hf.single_eq_false hne]
      exact h.slot m f hf
    · rw [Place.get_set_of_listing_ne hm]
      exact h.slot m f hf
  left := h.left
  right := h.right.set hg hy

end Shelves.Alike

/-! ### Sessions -/

namespace Session

variable {σ τ α β : Type} {R : Shelves → Shelves → Prop} {P Q : α → Prop}

/-- Whether two computations keep a relation between what is kept and have the same outcome, where
every result satisfies a condition. -/
def Agree (R : Shelves → Shelves → Prop) (x : Session σ α) (y : Session τ α) (Q : α → Prop) :
    Prop :=
  ∀ s t a b, R s t → R (x.run (s, a)).2.1 (y.run (t, b)).2.1
    ∧ (x.run (s, a)).1 = (y.run (t, b)).1 ∧ ∀ r, (x.run (s, a)).1 = .ok r → Q r

theorem agree_bind {x : Session σ α} {y : Session τ α} {f : α → Session σ β} {g : α → Session τ β}
    {Q : β → Prop} (hxy : Agree R x y P) (hfg : ∀ r, P r → Agree R (f r) (g r) Q) :
    Agree R (x >>= f) (y >>= g) Q := by
  intro s t a b hR
  obtain ⟨hR', heq, hP⟩ := hxy s t a b hR
  rw [run_bind, run_bind]
  rcases hx : x.run (s, a) with ⟨_ | r, s', a'⟩ <;>
    rcases hy : y.run (t, b) with ⟨_ | r', t', b'⟩ <;> rw [hx, hy] at heq hR' <;> cases heq
  · exact ⟨hR', rfl, nofun⟩
  · rw [hx] at hP
    exact hfg r (hP r rfl) s' t' a' b' hR'

/-- Sessions that agree are related. -/
def agreement (σ τ : Type) (R : Shelves → Shelves → Prop) : Simulation (Session σ) (Session τ) where
  Relates := Agree R
  pure h _ _ _ _ hR := ⟨hR, rfl, fun _ e => Except.ok.inj e ▸ h⟩
  bind := agree_bind
  throw _ _ _ _ hR := ⟨hR, rfl, nofun⟩

end Session

/-! ### Inquiries -/

namespace Store

variable {σ τ : Type} {names : List String} {xs ys : List Cube} {s : Store σ} {t : Store τ}
  {answers answers' : Request → Outcome RowSet}

/-- What a store with given cubes is answered may be kept by it. -/
theorem holds_answer (hcubes : s.answer answers .cubes = .ok xs) {q : Inquiry}
    {items : List q.listing.Item} (h : s.answer answers q = .ok items) :
    q.listing.Holds xs q.key items := by
  cases q with
  | cubes => exact Except.ok.inj (h.symm.trans hcubes)
  | measures x =>
    obtain ⟨rows, -, hrows⟩ := Outcome.bind_eq_ok.1 h
    intro a ha
    obtain ⟨row, -, ordinal, hread⟩ := exists_left_of_forall₂ (forall₂_readMeasures hrows) ha
    exact isMeasure_of_readMeasure hread
  | databases | catalogs | schemas | dimensions _ | hierarchies _ _ | levels _ _ | members _ _ =>
    trivial

/-- An inquiry finds the items in their slot, or it fetches them and leaves the slot with them. -/
theorem run_list (hs : s.engine = .ofAnswers answers) (q : Inquiry) (shelves : Shelves)
    (state : σ) :
    let slot := (Place.of q.listing (shelves.handle q.listing q.key)).get shelves
    (s.list q).run (shelves, state) = match slot.items? with
      | some items => (.ok items, shelves, state)
      | none => (s.answer answers q, (Place.of q.listing (shelves.handle q.listing q.key)).set
          (slot.start.finish slot.start.attempt (s.answer answers q))
            ((Place.of q.listing (shelves.handle q.listing q.key)).set slot.start shelves),
          state) := by
  intro slot
  rw [list, Session.run_bind, Session.run_look]
  dsimp only
  cases h : slot.items? with
  | some items => exact Session.run_itemsOf_some h
  | none =>
    exact Session.run_itemsOf_none h Place.get_set fun shelves =>
      run_fetchItems_of_answers hs q shelves state

/-- **An inquiry about one of the cubes** has the same outcome in two stores. -/
theorem agree_list (hs : s.engine = .ofAnswers answers) (ht : t.engine = .ofAnswers answers')
    (hxs : s.answer answers .cubes = .ok xs) (hys : t.answer answers' .cubes = .ok ys) {q : Inquiry}
    (hq : q.listing.Concerns names q.key) (hanswer : s.answer answers q = t.answer answers' q) :
    Session.Agree (Shelves.Alike names xs ys) (s.list q) (t.list q) (q.listing.Holds xs q.key) := by
  intro u v a b h
  have hslot := h.slot _ _ ((u.key_handle q.listing q.key).symm ▸ hq)
  rw [run_list hs, run_list ht, h.handle] at *
  rw [← hslot, ← hanswer]
  cases hitems : ((Place.of q.listing (v.handle q.listing q.key)).get u).items? with
  | some items =>
    rw [← h.handle] at hitems
    exact ⟨h, rfl, fun r e => Except.ok.inj e ▸ h.left.kept _ _ _ hitems⟩
  | none =>
    refine ⟨?_, rfl, fun r => holds_answer hxs⟩
    have hstart := h.set hq (u := ((Place.of q.listing (v.handle q.listing q.key)).get u).start)
      nofun nofun rfl
    refine hstart.set hq ?_ ?_ (Place.handle_set ..).symm
    · intro items e
      exact holds_answer hxs (Slot.eq_ok_of_items?_finish e)
    · intro items e
      exact holds_answer hys (hanswer ▸ Slot.eq_ok_of_items?_finish e)

/-- **An inquiry about another cube** leaves a store alike. -/
theorem apart_list (ht : t.engine = .ofAnswers answers') (hys : t.answer answers' .cubes = .ok ys)
    {u : Shelves} {q : Inquiry} (hq : ¬ q.listing.Concerns names q.key) :
    Session.Ensures (Shelves.Alike names xs ys u) (t.list q) (q.listing.Holds ys q.key) := by
  intro v b h
  rw [run_list ht]
  cases hitems : ((Place.of q.listing (v.handle q.listing q.key)).get v).items? with
  | some items => exact ⟨h, fun r e => Except.ok.inj e ▸ h.right.kept _ _ _ hitems⟩
  | none =>
    refine ⟨?_, fun r => holds_answer hys⟩
    have hstart := h.set_right hq
      (u := ((Place.of q.listing (v.handle q.listing q.key)).get v).start) nofun rfl
    refine hstart.set_right hq ?_ (Place.handle_set ..).symm
    intro items e
    exact holds_answer hys (Slot.eq_ok_of_items?_finish e)

/-- Stores offer the same for a cube if they answer alike what is asked about it. -/
theorem matches_of_list {S : Simulation (Session σ) (Session τ)} {x : Cube} (xs : List Cube)
    (h : ∀ q : Inquiry, q.cube? = some x →
      S.Relates (s.list q) (t.list q) (q.listing.Holds xs q.key)) :
    Provider.Matches S s.provider t.provider x fun _ => True where
  dimensions := by
    have hlist := h (.dimensions x) rfl
    rw [← dimensions_eq_list, ← dimensions_eq_list] at hlist
    exact S.mono hlist fun _ _ _ _ => trivial
  hierarchies d := S.mono (h (.hierarchies x d) rfl) fun _ _ _ _ => trivial
  levels a := by
    have hlist := h (.levels x a) rfl
    rw [← levels_eq_list, ← levels_eq_list] at hlist
    exact S.mono hlist fun _ _ _ _ => trivial
  members l := by
    have hlist := h (.members x l) rfl
    rw [← members_eq_list, ← members_eq_list] at hlist
    exact S.mono hlist fun _ _ _ _ => trivial
  measures := S.mono (h (.measures x) rfl) fun _ hmeasures a ha => ⟨trivial, hmeasures a ha⟩
  generations := rfl

/-- A store that lists given cubes finds a cube of a name among them. -/
theorem run_cube? (ht : t.engine = .ofAnswers answers') (hys : t.answer answers' .cubes = .ok ys)
    {v : Shelves} (hv : v.Keeps (Listing.Holds ys)) (name : String) (b : τ) :
    (t.cube? name).run (v, b) = (.ok (ys.find? (isNamed · name)), (t.cubes.run (v, b)).2) := by
  have hcubes : (t.cubes.run (v, b)).1 = .ok ys := by
    rcases (keeps_list ht hv (q := .cubes) (fun _ => holds_answer hys) b).2 with
      hanswer | ⟨items, hitems, hanswer⟩
    · exact hanswer.trans hys
    · exact hanswer.trans (congrArg Except.ok hitems)
  have hrun := Session.run_return (fun zs : List Cube => zs.find? (isNamed · name)) t.cubes (v, b)
  rw [hcubes] at hrun
  exact hrun

end Store

/-! ### Queried cubes -/

/-- Whether the cube that a statement queries has one of the given names, if it is found among
the cubes that a store lists. -/
def Expr.Sees (names : List String) (xs : List Cube) : Expr → Prop
  | .object (.cube x) => x.label.name ∈ names
  | .identifier i => ∀ x ∈ xs.find? (isNamed · i.name), x.label.name ∈ names
  | _ => True

/-- Whether the cube that a statement queries has none of the given names. -/
def Expr.Misses (names : List String) (xs : List Cube) : Expr → Prop
  | .object (.cube x) => x.label.name ∉ names
  | .identifier i => ∀ x ∈ xs.find? (isNamed · i.name), x.label.name ∉ names
  | _ => True

/-- Whether a store lists the same as another one for the cubes that the other one lists, whose
names are given. -/
structure Store.Extends {σ τ : Type} (names : List String)
    (answers answers' : Request → Outcome RowSet) (xs ys : List Cube) (s : Store σ) (t : Store τ) :
    Prop where
  left : s.engine = .ofAnswers answers
  right : t.engine = .ofAnswers answers'
  listLeft : s.answer answers .cubes = .ok xs
  listRight : t.answer answers' .cubes = .ok ys
  answer : ∀ q : Inquiry, q.listing.Concerns names q.key → s.answer answers q = t.answer answers' q
  find : ∀ name, xs.find? (isNamed · name)
    = (ys.find? (isNamed · name)).filter fun y => y.label.name ∈ names

namespace Store

variable {σ τ : Type} {names : List String} {xs ys : List Cube} {s : Store σ} {t : Store τ}
  {answers answers' : Request → Outcome RowSet} {e : Expr} {statement : Select Expr}

/-- An evaluated statement and its plan are related if the queried cube is, and stores offer the
same for it. -/
theorem relates_planned {S : Simulation (Session σ) (Session τ)} {P : Cube → Prop}
    (hsource : S.Relates (s.provider.sourceCube statement.source)
      (t.provider.sourceCube statement.source) P)
    (hmatches : ∀ x, P x → Provider.Matches S s.provider t.provider x fun _ => True) :
    S.Relates (s.planned statement) (t.planned statement) fun (query, plan) =>
      P query.cube ∧ ∃ parts : PlanParts, plan = parts.plan query.cube query.slicer := by
  let anything : Cube → SchemaObject → Prop := fun _ _ => True
  have hquery : S.Relates (s.provider.evaluateQuery statement) (t.provider.evaluateQuery statement)
      fun query => P query.cube ∧ query.OfStatement anything statement :=
    Provider.evaluateQuery_relates hsource fun x hx => ⟨hmatches x hx, .inl trivial⟩
  refine S.bind hquery fun query hquery => ?_
  have hplan : S.Relates (s.provider.planOfAxes query.cube query.axes query.slicer)
      (t.provider.planOfAxes query.cube query.axes query.slicer) fun plan =>
        ∃ parts : PlanParts, parts.Fit anything query.cube query.axes query.slicer
          ∧ plan = parts.plan query.cube query.slicer :=
    Provider.Matches.planOfAxes (hmatches query.cube hquery.1) query.axes query.slicer
  refine S.bind hplan fun plan hplan => S.pure ⟨hquery.1, ?_⟩
  obtain ⟨parts, -, hparts⟩ := hplan
  exact ⟨parts, hparts⟩

/-! ### Statements over other cubes -/

section

variable (ht : t.engine = .ofAnswers answers') (hys : t.answer answers' .cubes = .ok ys)

include ht hys

private theorem apart_sourceCube {u : Shelves} (he : e.Misses names ys) :
    Session.Ensures (Shelves.Alike names xs ys u) (t.provider.sourceCube e)
      fun x => x.label.name ∉ names := by
  unfold Provider.sourceCube
  split
  · exact Session.ensures_pure he
  · have hcube : ∀ name, Session.Ensures (Shelves.Alike names xs ys u) (t.cube? name) fun found =>
        found = ys.find? (isNamed · name) := by
      intro name v b h
      rw [run_cube? ht hys h.right]
      exact ⟨(apart_list (q := .cubes) ht hys id v b h).1, fun _ e => (Except.ok.inj e).symm⟩
    refine Session.ensures_bind (hcube _) fun found hfound => ?_
    cases hfound' : found with
    | none => exact Session.ensures_throw
    | some x => exact Session.ensures_pure (he x (hfound ▸ hfound'))
  · exact Session.ensures_throw

/-- **A statement over another cube** leaves a store alike. -/
theorem apart_planned {u : Shelves} (hsource : statement.source.Misses names ys) :
    Session.Ensures (Shelves.Alike names xs ys u) (t.planned statement) fun _ => True := by
  have hmatches : ∀ x : Cube, x.label.name ∉ names →
      Provider.Matches (Session.assurance τ (Shelves.Alike names xs ys u)).simulation t.provider
        t.provider x fun _ => True := fun x hx =>
    matches_of_list ys fun q hq => apart_list ht hys fun hconcerns =>
      hx ((Inquiry.concerns_iff hq).1 hconcerns)
  have hplanned := relates_planned (t := t) (apart_sourceCube ht hys hsource) hmatches
  exact (Session.assurance τ _).mono hplanned fun _ _ => trivial

end

/-! ### Statements over one of the cubes -/

namespace Extends

variable (h : Extends names answers answers' xs ys s t)

include h

/-- An inquiry about something else leaves both stores alike. -/
theorem alike_list {q : Inquiry} (hq : ¬ q.listing.Concerns names q.key) {u v : Shelves}
    (huv : u.Alike names xs ys v) (a : σ) (b : τ) :
    ((s.list q).run (u, a)).2.1.Alike names xs ys ((t.list q).run (v, b)).2.1 := by
  have hright := (apart_list h.right h.listRight hq v b huv).1
  exact (apart_list h.left h.listLeft hq u a hright.symm).1.symm

/-- **An inquiry about one of the cubes** has the same outcome in both stores. -/
theorem agree_list {q : Inquiry} (hq : q.listing.Concerns names q.key) :
    Session.Agree (Shelves.Alike names xs ys) (s.list q) (t.list q) (q.listing.Holds xs q.key) :=
  Store.agree_list h.left h.right h.listLeft h.listRight hq (h.answer q hq)

/-- **A cube of a name** is found by both stores or by none of them. -/
theorem agree_cube? {name : String}
    (hname : ∀ x ∈ ys.find? (isNamed · name), x.label.name ∈ names) :
    Session.Agree (Shelves.Alike names xs ys) (s.cube? name) (t.cube? name) fun found =>
      found = ys.find? (isNamed · name) := by
  intro u v a b huv
  have hfind : xs.find? (isNamed · name) = ys.find? (isNamed · name) := by
    rw [h.find]
    cases hx : ys.find? (isNamed · name) with
    | none => rfl
    | some x => simp [hname x hx]
  rw [run_cube? h.left h.listLeft huv.left, run_cube? h.right h.listRight huv.right, hfind]
  exact ⟨h.alike_list (q := .cubes) id huv a b, rfl, fun _ e => (Except.ok.inj e).symm⟩

private theorem agree_sourceCube (he : e.Sees names ys) :
    Session.Agree (Shelves.Alike names xs ys) (s.provider.sourceCube e) (t.provider.sourceCube e)
      fun x => x.label.name ∈ names ∧ (x ∈ ys ∨ e = .object (.cube x)) := by
  unfold Provider.sourceCube
  cases e with
  | object o =>
    cases o with
    | cube x => exact (Session.agreement σ τ _).pure ⟨he, .inr rfl⟩
    | _ => exact (Session.agreement σ τ _).throw
  | identifier i =>
    refine Session.agree_bind (h.agree_cube? he) fun found hfound => ?_
    cases hfound' : found with
    | none => exact (Session.agreement σ τ _).throw
    | some x =>
      have hx : ys.find? (isNamed · i.name) = some x := hfound ▸ hfound'
      exact (Session.agreement σ τ _).pure ⟨he x hx, .inl (List.mem_of_find?_eq_some hx)⟩
  | _ => exact (Session.agreement σ τ _).throw

/-- **A statement over one of the cubes** is evaluated and planned alike. -/
theorem agree_planned (hsource : statement.source.Sees names ys) :
    Session.Agree (Shelves.Alike names xs ys) (s.planned statement) (t.planned statement)
      fun (query, plan) => (query.cube.label.name ∈ names
        ∧ (query.cube ∈ ys ∨ statement.source = .object (.cube query.cube)))
        ∧ ∃ parts : PlanParts, plan = parts.plan query.cube query.slicer := by
  have hmatches : ∀ x : Cube, x.label.name ∈ names →
      Provider.Matches (Session.agreement σ τ (Shelves.Alike names xs ys)) s.provider t.provider x
        fun _ => True := fun x hx =>
    matches_of_list xs fun q hq => h.agree_list ((Inquiry.concerns_iff hq).2 hx)
  exact relates_planned (S := Session.agreement σ τ _) (h.agree_sourceCube hsource)
    fun x hx => hmatches x hx.1

/-- A statement queries one of the cubes, or none of them in both stores. -/
theorem sees_or_misses (e : Expr) : e.Sees names ys ∨ e.Misses names xs ∧ e.Misses names ys := by
  cases e with
  | object o =>
    cases o with
    | cube x =>
      by_cases hx : x.label.name ∈ names
      · exact .inl hx
      · exact .inr ⟨hx, hx⟩
    | _ => exact .inl trivial
  | identifier i =>
    cases hfind : ys.find? (isNamed · i.name) with
    | none => exact .inl fun x hx => nomatch hfind.symm.trans hx
    | some y =>
      by_cases hy : y.label.name ∈ names
      · exact .inl fun x hx => Option.some.inj (hfind.symm.trans hx) ▸ hy
      -- the cube that is found is none of those with the names, so the other store finds nothing
      · refine .inr ⟨fun x hx => ?_, fun x hx => Option.some.inj (hfind.symm.trans hx) ▸ hy⟩
        have hnone : xs.find? (isNamed · i.name) = none := by
          rw [h.find, hfind]
          simp [hy]
        exact nomatch hnone.symm.trans hx
  | _ => exact .inl trivial

/-- Any statement leaves the stores alike. -/
theorem alike_planned {u v : Shelves} (huv : u.Alike names xs ys v) (a : σ) (b : τ) :
    ((s.planned statement).run (u, a)).2.1.Alike names xs ys
      ((t.planned statement).run (v, b)).2.1 := by
  rcases h.sees_or_misses statement.source with hsees | ⟨hleft, hright⟩
  · exact (h.agree_planned hsees u v a b huv).1
  · have hv := (apart_planned h.right h.listRight hright v b huv).1
    exact (apart_planned h.left h.listLeft hleft u a hv.symm).1.symm

/-- The plan of a statement over one of the cubes is the same. -/
theorem agree_explain (hsource : statement.source.Sees names ys) :
    Session.Agree (Shelves.Alike names xs ys) (s.explain statement) (t.explain statement)
      fun _ => True :=
  (Session.agreement σ τ _).map (h.agree_planned hsource) fun _ _ => trivial

/-- **The result of a statement over one of the cubes** is the same if both engines execute its
plan alike. -/
theorem agree_execute (hsource : statement.source.Sees names ys)
    (hexecute : ∀ (x : Cube) (parts : PlanParts) slicer, x.label.name ∈ names →
      (x ∈ ys ∨ statement.source = .object (.cube x)) →
        answers (.execute (parts.plan x slicer)) = answers' (.execute (parts.plan x slicer))) :
    Session.Agree (Shelves.Alike names xs ys) (s.execute statement) (t.execute statement)
      fun _ => True := by
  refine Session.agree_bind (h.agree_planned hsource) fun (query, plan) hplanned => ?_
  obtain ⟨⟨hname, hcube⟩, parts, rfl⟩ := hplanned
  have hask : Session.Agree (Shelves.Alike names xs ys)
      (s.ask (.execute (parts.plan query.cube query.slicer)))
      (t.ask (.execute (parts.plan query.cube query.slicer))) fun _ => True := by
    intro u v a b huv
    refine ⟨huv, ?_, fun _ _ => trivial⟩
    have hanswer := hexecute query.cube parts query.slicer hname hcube
    change (s.engine _ a).1 = (t.engine _ b).1
    rw [h.left, h.right]
    exact hanswer
  exact Session.agree_bind hask fun rows _ u v a b huv => ⟨huv, rfl, fun _ _ => trivial⟩

end Extends

end Store

/-! ### Connections -/

namespace Store

variable {σ : Type} (s : Store σ) (statement : Select Expr)

/-- The execution of a plan changes nothing that is kept. -/
theorem shelves_execute (shelves : Shelves) (state : σ) :
    ((s.execute statement).run (shelves, state)).2.1
      = ((s.planned statement).run (shelves, state)).2.1 := by
  rw [execute, Session.run_bind]
  rcases (s.planned statement).run (shelves, state) with ⟨_ | ⟨query, plan⟩, shelves', state'⟩
  · rfl
  · dsimp only
    have hask : (s.ask (.execute plan)).run (shelves', state')
        = ((s.engine (.execute plan) state').1, shelves', (s.engine (.execute plan) state').2) :=
      rfl
    rw [Session.run_bind, hask]
    cases (s.engine (.execute plan) state').1 <;> rfl

theorem shelves_explain (shelves : Shelves) (state : σ) :
    ((s.explain statement).run (shelves, state)).2.1
      = ((s.planned statement).run (shelves, state)).2.1 := by
  rw [explain, Session.run_return]

end Store

namespace Connection

variable {σ τ : Type} {names : List String} {xs ys : List Cube} {c : Connection σ}
  {c' : Connection τ} {answers answers' : Request → Outcome RowSet}
  (h : c.store.Extends names answers answers' xs ys c'.store)

include h

/-- **Any use of two connections** keeps them alike. -/
theorem alike_step (halike : c.shelves.Alike names xs ys c'.shelves) (call : Call) :
    (c.step call).shelves.Alike names xs ys (c'.step call).shelves := by
  have hplanned : ∀ statement,
      ((c.store.planned statement).run (c.shelves, c.state)).2.1.Alike names xs ys
        ((c'.store.planned statement).run (c'.shelves, c'.state)).2.1 :=
    fun _ => h.alike_planned halike c.state c'.state
  cases hq : call.inquiry? with
  | some q =>
    rw [shelves_step c hq, shelves_step c' hq]
    by_cases hconcerns : q.listing.Concerns names q.key
    · exact (h.agree_list hconcerns _ _ _ _ halike).1
    · exact h.alike_list hconcerns halike _ _
  | none =>
    cases call with
    | explain statement =>
      have hshelves := hplanned statement
      rwa [← Store.shelves_explain, ← Store.shelves_explain] at hshelves
    | execute statement =>
      have hshelves := hplanned statement
      rwa [← Store.shelves_execute, ← Store.shelves_execute] at hshelves
    | reset | setLocale _ => exact halike.reset
    | databases | catalogs | schemas | cubes | cube _ | measures _ | dimensions _
    | hierarchies _ _ | levels _ _ | members _ _ => cases hq

/-- **Any uses of two connections** keep them alike. -/
theorem alike_after (halike : c.shelves.Alike names xs ys c'.shelves) (calls : List Call) :
    (c.after calls).shelves.Alike names xs ys (c'.after calls).shelves := by
  induction calls generalizing c c' with
  | nil => exact halike
  | cons call calls ih =>
    refine ih ?_ (alike_step h halike call)
    rwa [store_step, store_step]

/-- **A statement over one of the cubes** has the same plan and the same result after any uses. -/
theorem run_after (halike : c.shelves.Alike names xs ys c'.shelves) (calls : List Call)
    {statement : Select Expr} (hsource : statement.source.Sees names ys)
    (hexecute : ∀ (x : Cube) (parts : PlanParts) slicer, x.label.name ∈ names →
      (x ∈ ys ∨ statement.source = .object (.cube x)) →
        answers (.execute (parts.plan x slicer)) = answers' (.execute (parts.plan x slicer))) :
    ((c.after calls).run (·.execute statement)).1 = ((c'.after calls).run (·.execute statement)).1
      ∧ ((c.after calls).run (·.explain statement)).1
        = ((c'.after calls).run (·.explain statement)).1 := by
  have hafter := alike_after h halike calls
  have hextends :
      (c.after calls).store.Extends names answers answers' xs ys (c'.after calls).store := by
    rwa [store_after, store_after]
  constructor
  · exact (hextends.agree_execute hsource hexecute _ _ _ _ hafter).2.1
  · exact (hextends.agree_explain hsource _ _ _ _ hafter).2.1

end Connection

end Datacube
