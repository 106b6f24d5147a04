import Datacube.Proofs.Correspondences
import Datacube.Proofs.Transparency

/-!
# Answers that are given again

A computation that has had a result once has the same one again: of a provider with fixed answers
this is clear, and a store keeps what it has listed.  So a program may use a result twice, or do
the computation twice, as long as the first time comes before the second.

## Main definitions

* `Recollection` — whether a computation repeats, after a time, the results of another one.
* `Outcome.recollection` — outcomes are the same at any time.
* `Shelves.Extends`, `Session.recollection` — sessions repeat results as long as nothing is
  discarded.
* `Provider.Steady` — whether the lookups of a provider repeat their results.

## Main results

* `Outcome.steady` — providers with fixed answers are steady.
* `Store.steady` — **stores are steady**, over any engine.
-/

namespace Datacube

/-- Whether a computation repeats the results of another one.  Results that have been had at some
time are had again later. -/
structure Recollection (m : Type → Type) [Monad m] [MonadExcept Fault m] where
  Time : Type
  /-- Whether the second computation repeats any result of the first one from the time on. -/
  since : Time → Simulation m m
  forgives : ∀ t, (since t).Forgives
  trans : ∀ {t : Time} {α : Type} {x y z : m α} {P : α → Prop}, (since t).Relates x y P →
    (since t).Relates y z (fun _ => True) → (since t).Relates x z P
  /-- What follows a computation may count on its result. -/
  remember : ∀ {t : Time} {α β : Type} {x : m α} {f : α → m β} {y : m β} {P : α → Prop}
    {Q : β → Prop}, (since t).Relates x x P →
      (∀ a u, P a → (since u).Relates (pure a) x (fun _ => True) → (since u).Relates (f a) y Q) →
      (since t).Relates (x >>= f) y Q

/-! ### Outcomes -/

/-- Outcomes are the same at any time. -/
def Outcome.recollection : Recollection Outcome where
  Time := Unit
  since _ := {
    Relates := fun x y P => ∀ a, x = .ok a → y = .ok a ∧ P a
    pure := by
      rintro α a Q hQ _ ⟨⟩
      exact ⟨rfl, hQ⟩
    bind := by
      intro α β x y f g P Q hx hf b hb
      obtain ⟨a, ha, hb⟩ := Outcome.bind_eq_ok.1 hb
      obtain ⟨hy, hP⟩ := hx a ha
      obtain ⟨hg, hQ⟩ := hf a hP b hb
      exact ⟨Outcome.bind_eq_ok.2 ⟨a, hy, hg⟩, hQ⟩
    throw := nofun }
  forgives _ := nofun
  trans hxy hyz a ha := ⟨(hyz a (hxy a ha).1).1, (hxy a ha).2⟩
  remember := by
    intro t α β x f y P Q hx hf b hb
    obtain ⟨a, ha, hb⟩ := Outcome.bind_eq_ok.1 hb
    refine hf a () (hx a ha).2 ?_ b hb
    rintro _ ⟨⟩
    exact ⟨ha, trivial⟩

/-- Every computation repeats its own result. -/
theorem Outcome.relates_self (t : Outcome.recollection.Time) {α : Type} (x : Outcome α) :
    (Outcome.recollection.since t).Relates x x fun _ => True :=
  fun _ ha => ⟨ha, trivial⟩

/-! ### Collections that grow -/

namespace Shelves

/-- The items that a slot has now. -/
def items? (s : Shelves) (l : Listing) (key : l.Key) : Option (List l.Item) :=
  ((Place.of l (s.handle l key)).get s).items?

/-- Whether all that is kept is still kept later, and nothing but measures are kept as measures. -/
structure Extends (s t : Shelves) : Prop where
  items : ∀ l key items, s.items? l key = some items → t.items? l key = some items
  only : t.Only fun _ _ => True

variable {s t u : Shelves}

theorem Extends.trans (h : s.Extends t) (h' : t.Extends u) : s.Extends u :=
  ⟨fun l key items hitems => h'.items l key items (h.items l key items hitems), h'.only⟩

theorem Only.extends_self (h : s.Only fun _ _ => True) : s.Extends s := ⟨fun _ _ _ => id, h⟩

theorem Extends.extends_self (h : s.Extends t) : t.Extends t := h.only.extends_self

section

variable {l : Listing} {key : l.Key} {h : Handle l.Key} (hh : h = s.handle l key) (slot : Slot l.Item)

include hh

/-- The items of a slot that has been put in the place of a name. -/
theorem items?_set_self : ((Place.of l h).set slot s).items? l key = slot.items? := by
  rw [items?, Place.handle_set, ← hh, Place.get_set]

/-- Another slot for a name leaves the items of all other names as they are. -/
theorem items?_set_of_ne {m : Listing} {name : m.Key}
    (hne : (⟨m, name⟩ : Σ l : Listing, l.Key) ≠ ⟨l, key⟩) :
    ((Place.of l h).set slot s).items? m name = s.items? m name := by
  subst hh
  rw [items?, items?, Place.handle_set]
  by_cases hm : m = l
  · subst hm
    have hname : name ≠ key := fun h => hne (by rw [h])
    have hhandle : s.handle m name ≠ s.handle m key := by
      intro e
      rw [← key_handle s m name, e, key_handle] at hname
      exact hname rfl
    rw [Place.get_set_of_ne (Listing.single_eq_false hname) hhandle]
  · rw [Place.get_set_of_listing_ne hm]

end

end Shelves

/-! ### Sessions -/

namespace Session

variable {σ α : Type}

/-- Whether the second of two sessions repeats the results of the first one, once these have been
had after the given collections were kept.  It repeats them without asking the engine. -/
def Repeats (kept : Shelves) (x y : Session σ α) (P : α → Prop) : Prop :=
  ∀ shelves state, kept.Extends shelves → ∀ a shelves' state',
    x.run (shelves, state) = (.ok a, shelves', state') →
      shelves.Extends shelves' ∧ P a
        ∧ ∀ later state'', shelves'.Extends later → y.run (later, state'') = (.ok a, later, state'')

theorem run_bind_eq_ok {β : Type} {x : Session σ α} {f : α → Session σ β} {b : β}
    {s s' : Shelves × σ} : (x >>= f).run s = (.ok b, s') ↔
      ∃ a u, x.run s = (.ok a, u) ∧ (f a).run u = (.ok b, s') := by
  rw [run_bind]
  rcases x.run s with ⟨_ | a, u⟩
  · refine iff_of_false nofun ?_
    rintro ⟨_, _, h, -⟩
    cases h
  · constructor
    · intro h
      exact ⟨a, u, rfl, h⟩
    · rintro ⟨_, _, h, h'⟩
      cases h
      exact h'

variable {kept : Shelves}

theorem repeats_pure {a : α} {P : α → Prop} (h : P a) :
    Repeats kept (pure a : Session σ α) (pure a) P := by
  rintro shelves state hkept _ _ _ ⟨⟩
  exact ⟨hkept.extends_self, h, fun _ _ _ => rfl⟩

theorem repeats_bind {β : Type} {x y : Session σ α} {f g : α → Session σ β} {P : α → Prop}
    {Q : β → Prop} (hx : Repeats kept x y P) (hf : ∀ a, P a → Repeats kept (f a) (g a) Q) :
    Repeats kept (x >>= f) (y >>= g) Q := by
  intro shelves state hkept b shelves₂ state₂ h
  obtain ⟨a, ⟨shelves₁, state₁⟩, hrun, h⟩ := run_bind_eq_ok.1 h
  obtain ⟨hextends₁, hP, hy⟩ := hx shelves state hkept a shelves₁ state₁ hrun
  obtain ⟨hextends₂, hQ, hg⟩ := hf a hP shelves₁ state₁ (hkept.trans hextends₁) b shelves₂ state₂ h
  refine ⟨hextends₁.trans hextends₂, hQ, fun later state'' hlater => ?_⟩
  exact run_bind_eq_ok.2 ⟨a, _, hy later state'' (hextends₂.trans hlater), hg later state'' hlater⟩

theorem repeats_trans {x y z : Session σ α} {P : α → Prop} (hxy : Repeats kept x y P)
    (hyz : Repeats kept y z fun _ => True) : Repeats kept x z P := by
  intro shelves state hkept a shelves' state' h
  obtain ⟨hextends, hP, hy⟩ := hxy shelves state hkept a shelves' state' h
  refine ⟨hextends, hP, fun later state'' hlater => ?_⟩
  have hkept' : kept.Extends later := (hkept.trans hextends).trans hlater
  exact (hyz later state'' hkept' a later state'' (hy later state'' hlater)).2.2 later state''
    hlater.extends_self

theorem repeats_remember {β : Type} {x : Session σ α} {f : α → Session σ β} {y : Session σ β}
    {P : α → Prop} {Q : β → Prop} (hx : Repeats kept x x P)
    (hf : ∀ a now, P a → Repeats now (pure a) x (fun _ => True) → Repeats now (f a) y Q) :
    Repeats kept (x >>= f) y Q := by
  intro shelves state hkept b shelves₂ state₂ h
  obtain ⟨a, ⟨shelves₁, state₁⟩, hrun, h⟩ := run_bind_eq_ok.1 h
  obtain ⟨hextends₁, hP, hagain⟩ := hx shelves state hkept a shelves₁ state₁ hrun
  -- the result is known from the time on at which it has been had
  have hknown : Repeats shelves₁ (pure a) x fun _ => True := by
    rintro shelves' state' hshelves' _ _ _ ⟨⟩
    exact ⟨hshelves'.extends_self, trivial, fun later state'' hlater =>
      hagain later state'' (hshelves'.trans hlater)⟩
  obtain ⟨hextends₂, hQ, hy⟩ :=
    hf a shelves₁ hP hknown shelves₁ state₁ hextends₁.extends_self b shelves₂ state₂ h
  exact ⟨hextends₁.trans hextends₂, hQ, hy⟩

/-- Sessions repeat results as long as nothing is discarded. -/
def recollection (σ : Type) : Recollection (Session σ) where
  Time := Shelves
  since kept := {
    Relates := Repeats kept
    pure := repeats_pure
    bind := repeats_bind
    throw := fun _ _ _ _ _ _ h => nomatch congrArg Prod.fst h }
  forgives _ _ _ _ _ := fun _ _ _ _ _ _ h => nomatch congrArg Prod.fst h
  trans := repeats_trans
  remember := repeats_remember

end Session

/-! ### Steady providers -/

/-- Whether the lookups of a provider repeat their results. -/
structure Provider.Steady {m : Type → Type} [Monad m] [MonadExcept Fault m] (R : Recollection m)
    (p : Provider m) : Prop where
  cube : ∀ t name, (R.since t).Relates (p.cube name) (p.cube name) fun _ => True
  resolveObject : ∀ t cube i,
    (R.since t).Relates (p.resolveObject cube i) (p.resolveObject cube i) fun _ => True
  allMembers : ∀ t cube o,
    (R.since t).Relates (p.allMembers cube o) (p.allMembers cube o) fun _ => True
  siblingCount : ∀ t cube a,
    (R.since t).Relates (p.siblingCount cube a) (p.siblingCount cube a) fun _ => True

/-- **Providers with fixed answers** are steady. -/
theorem Outcome.steady (p : Provider Outcome) : p.Steady Outcome.recollection where
  cube t _ := relates_self t _
  resolveObject t _ _ := relates_self t _
  allMembers t _ _ := relates_self t _
  siblingCount t _ _ := relates_self t _

/-- Nothing is asked of what an engine lists. -/
theorem Engine.lists_anything {σ : Type} (engine : Engine σ) : engine.Lists fun _ _ => True :=
  fun _ _ _ _ _ _ _ _ _ _ => trivial

namespace Store

variable {σ : Type} (s : Store σ)

/-- What is kept is the answer, and nothing changes. -/
theorem run_list_of_items {q : Inquiry} {shelves : Shelves} {items : List q.listing.Item}
    (h : shelves.items? q.listing q.key = some items) (state : σ) :
    (s.list q).run (shelves, state) = (.ok items, shelves, state) := by
  rw [list, Session.run_bind, Session.run_look]
  exact Session.run_itemsOf_some h

/-- An answer is kept, beside all that has been kept before. -/
theorem items?_of_run_list {q : Inquiry} {shelves shelves' : Shelves} {state state' : σ}
    {items : List q.listing.Item}
    (h : (s.list q).run (shelves, state) = (.ok items, shelves', state')) :
    shelves'.items? q.listing q.key = some items
      ∧ ∀ l key others, shelves.items? l key = some others →
        shelves'.items? l key = some others := by
  cases hitems : shelves.items? q.listing q.key with
  | some found =>
    rw [s.run_list_of_items hitems] at h
    cases h
    exact ⟨hitems, fun _ _ _ => id⟩
  | none =>
    rw [list, Session.run_bind, Session.run_look] at h
    dsimp only at h
    rw [Session.run_itemsOf_none hitems Place.get_set fun shelves =>
      s.run_fetchItems q shelves state] at h
    obtain ⟨hok, h⟩ := Prod.mk.inj h
    obtain ⟨rfl, -⟩ := Prod.mk.inj h
    refine ⟨?_, fun l key others hkept => ?_⟩
    · rw [Shelves.items?_set_self (Place.handle_set ..).symm, hok, Slot.finish_ok]
      rfl
    · -- nothing is kept in the slot that is filled, and the others stay as they are
      have hne : (⟨l, key⟩ : Σ l : Listing, l.Key) ≠ ⟨q.listing, q.key⟩ := by
        rintro ⟨⟩
        cases hkept.symm.trans hitems
      rw [Shelves.items?_set_of_ne (Place.handle_set ..).symm _ hne,
        Shelves.items?_set_of_ne rfl _ hne]
      exact hkept

/-- **A store repeats its answers**, which it keeps. -/
theorem repeats_list (q : Inquiry) {kept : Shelves} {P : List q.listing.Item → Prop}
    (hP : Session.Ensures (Shelves.Only fun _ _ => True) (s.list q) P) :
    Session.Repeats kept (s.list q) (s.list q) P := by
  intro shelves state hkept a shelves' state' h
  obtain ⟨honly, hresult⟩ := hP shelves state hkept.only
  rw [h] at honly hresult
  obtain ⟨hitems, hkeeps⟩ := s.items?_of_run_list h
  refine ⟨⟨hkeeps, honly⟩, hresult a rfl, fun later state'' hlater => ?_⟩
  exact s.run_list_of_items (hlater.items _ _ _ hitems) state''

/-- A collection of a store repeats its results, and these are as the store ensures. -/
private theorem repeats_of_eq_list {q : Inquiry} {x : Session σ (List q.listing.Item)}
    (hx : x = s.list q) {kept : Shelves} {P : List q.listing.Item → Prop}
    (hP : Session.Ensures (Shelves.Only fun _ _ => True) x P) : Session.Repeats kept x x P := by
  subst hx
  exact s.repeats_list q hP

/-- Whatever the engine answers, a store lists for a cube what it has listed. -/
theorem matches_self (kept : Shelves) (cube : Cube) :
    s.provider.Matches ((Session.recollection σ).since kept) s.provider cube fun _ => True := by
  have hoffers := offers s.engine.lists_anything
  let S := (Session.recollection σ).since kept
  constructor
  case dimensions =>
    exact S.mono (s.repeats_of_eq_list (q := .dimensions cube) (s.dimensions_eq_list cube)
      (hoffers.dimensions cube)) fun _ _ _ _ => trivial
  case hierarchies =>
    exact fun d => S.mono (s.repeats_of_eq_list (q := .hierarchies cube d)
      (s.hierarchies_eq_list cube d) (hoffers.hierarchies cube d)) fun _ _ _ _ => trivial
  case levels =>
    exact fun h => S.mono (s.repeats_of_eq_list (q := .levels cube h) (s.levels_eq_list cube h)
      (hoffers.levels cube h)) fun _ _ _ _ => trivial
  case members =>
    exact fun l => S.mono (s.repeats_of_eq_list (q := .members cube l) (s.members_eq_list cube l)
      (hoffers.members cube l)) fun _ _ _ _ => trivial
  case measures =>
    exact S.mono (s.repeats_of_eq_list (q := .measures cube) (s.measures_eq_list cube)
      (hoffers.measures cube)) fun _ hall a ha => ⟨trivial, (hall a ha).2⟩
  case generations => rfl

/-- **Stores are steady**, over any engine. -/
theorem steady : s.provider.Steady (Session.recollection σ) where
  cube kept name := by
    have hcubes : Session.Repeats kept s.cubes s.cubes _ :=
      s.repeats_of_eq_list (q := .cubes) s.cubes_eq_list (ensures_cubes s.engine.lists_anything)
    exact Session.repeats_bind hcubes fun _ _ => Session.repeats_pure trivial
  resolveObject kept cube i := (s.matches_self kept cube).resolveObject i
  allMembers kept cube o :=
    ((Session.recollection σ).since kept).mono ((s.matches_self kept cube).allMembers o)
      fun _ _ => trivial
  siblingCount kept cube a := (s.matches_self kept cube).siblingCount a

end Store

end Datacube
