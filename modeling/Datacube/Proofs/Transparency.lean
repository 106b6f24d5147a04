import Datacube.Engine.Table
import Datacube.Inquiry
import Datacube.Proofs.Stores
import Mathlib.Data.List.Induction

/-!
# Transparency

If the answers of an engine depend on the requests alone, a store answers like a new one, with one
exception.  Slots go by unique names, while requests are restricted to all objects around.  So a
store takes the levels of two hierarchies with one unique name, and the members of two levels with
one unique name, for the same.

## Main definitions

* `Engine.answerTo`, `Store.answer` — what an engine with fixed answers lists.
* `Shelves.Keeps` — whether the slots that names have now hold nothing but given items.
* `Call.recent` — what was asked since everything was last discarded.

## Main results

* `Store.list_answer`, `Store.keeps_list` — **a store answers with what it keeps or what the engine
  lists**, and keeps what it answers.
* `Connection.keeps_after` — what is kept after any number of uses.
* `Connection.transparent` — **a store answers like a new one**.
-/

namespace Datacube

/-! ### Inquiries -/

namespace Inquiry

/-- The slot that keeps the answer. -/
def slot (q : Inquiry) : Σ l : Listing, l.Key := ⟨q.listing, q.key⟩

/-- Whether two inquiries with one slot are about the same objects: hierarchies in the same
dimension, or levels in the same hierarchy of the same dimension. -/
def Agrees : Inquiry → Inquiry → Prop
  | levels _ h', levels _ h => h'.dimension = h.dimension
  | members _ l', members _ l => l'.dimension = l.dimension ∧ l'.hierarchy = l.hierarchy
  | _, _ => True

/-- Requests for the same objects are the same. -/
theorem Agrees.restrictions_eq {σ : Type} {q' q : Inquiry} (h : q'.Agrees q)
    (hslot : q'.slot = q.slot) (s : Store σ) : s.restrictions q' = s.restrictions q := by
  have hlisting : q'.listing = q.listing := congrArg Sigma.fst hslot
  have hkey : HEq q'.key q.key := (Sigma.mk.inj hslot).2
  cases q <;> cases q' <;> cases hlisting
  case databases | catalogs | schemas | cubes => rfl
  case dimensions x x' | measures x x' =>
    have hname : x'.label.name = x.label.name := eq_of_heq hkey
    simp only [Store.restrictions, Store.withinCube, hname]
  case hierarchies x d x' d' =>
    obtain ⟨hname, hunique⟩ := Prod.mk.inj (eq_of_heq hkey)
    simp only [Store.restrictions, Store.withinCube, hname, hunique]
  case levels x a x' a' =>
    obtain ⟨hname, hunique⟩ := Prod.mk.inj (eq_of_heq hkey)
    have hdimension : a'.dimension = a.dimension := h
    simp only [Store.restrictions, Store.withinCube, hname, hunique, hdimension]
  case members x l x' l' =>
    obtain ⟨hname, hunique⟩ := Prod.mk.inj (eq_of_heq hkey)
    obtain ⟨hdimension, hhierarchy⟩ : l'.dimension = l.dimension ∧ l'.hierarchy = l.hierarchy := h
    simp only [Store.restrictions, Store.withinCube, hname, hunique, hdimension, hhierarchy]

end Inquiry

/-! ### Places -/

namespace Place

variable {l m : Listing} {h : Handle l.Key} {g : Handle m.Key} {s : Shelves}

@[simp] theorem get_set (t : Slot l.Item) (s : Shelves) :
    (of l h).get ((of l h).set t s) = t := by
  cases l with
  | databases | catalogs | schemas | cubes => rfl
  | dimensions | measures | hierarchies | levels | members => exact Keyed.slot_set ..

@[simp] theorem handle_set (t : Slot l.Item) (s : Shelves) (key : m.Key) :
    ((of l h).set t s).handle m key = s.handle m key := by
  cases l <;> cases m <;> rfl

theorem get_set_of_listing_ne (hne : m ≠ l) (t : Slot l.Item) (s : Shelves) :
    (of m g).get ((of l h).set t s) = (of m g).get s := by
  cases l <;> cases m <;> first | rfl | exact absurd rfl hne

theorem get_set_of_ne {g : Handle l.Key} (hl : l.single = false) (hne : g ≠ h) (t : Slot l.Item)
    (s : Shelves) : (of l g).get ((of l h).set t s) = (of l g).get s := by
  cases l with
  | databases | catalogs | schemas | cubes => cases hl
  | dimensions | measures | hierarchies | levels | members => exact Keyed.slot_set_of_ne _ hne t

end Place

@[simp] theorem Shelves.key_handle (s : Shelves) (l : Listing) (key : l.Key) :
    (s.handle l key).key = key := by
  cases l <;> rfl

theorem Listing.single_eq_false {l : Listing} {key other : l.Key} (hne : key ≠ other) :
    l.single = false := by
  cases l with
  | databases | catalogs | schemas | cubes => exact absurd rfl hne
  | dimensions | measures | hierarchies | levels | members => rfl

theorem Slot.eq_ok_of_items?_finish {α : Type} {t : Slot α} {result : Outcome (List α)}
    {items : List α} (h : (t.finish t.attempt result).items? = some items) :
    result = .ok items := by
  cases result with
  | error e =>
    rw [finish_error] at h
    cases h
  | ok found =>
    rw [finish_ok] at h
    cases h
    rfl

/-! ### What is kept -/

/-- Whether the slots that names have now hold nothing but given items. -/
structure Shelves.Keeps (kept : (l : Listing) → l.Key → List l.Item → Prop) (s : Shelves) :
    Prop where
  kept : ∀ l key items, ((Place.of l (s.handle l key)).get s).items? = some items →
    kept l key items
  /-- A slot has not been used before its name has it. -/
  unused : ∀ l (h : Handle l.Key), l.single = false →
    (s.handle l h.key).generation < h.generation → ((Place.of l h).get s).items? = none

namespace Shelves

variable {kept other : (l : Listing) → l.Key → List l.Item → Prop} {s : Shelves}

theorem keeps_empty : Shelves.Keeps kept {} := by
  refine ⟨?_, ?_⟩
  · intro l key items hitems
    cases l <;> cases hitems
  · intro l h _ _
    cases l <;> rfl

theorem Keeps.mono (hs : s.Keeps kept) (h : ∀ l key items, kept l key items → other l key items) :
    s.Keeps other :=
  ⟨fun l key items hitems => h l key items (hs.kept l key items hitems), hs.unused⟩

/-- Nothing is kept after a reset. -/
theorem Keeps.reset (hs : s.Keeps kept) : s.reset.Keeps other := by
  refine ⟨?_, ?_⟩
  · intro l key items hitems
    suffices hnone : ((Place.of l (s.reset.handle l key)).get s.reset).items? = none by
      rw [hnone] at hitems
      cases hitems
    cases l with
    | databases | catalogs | schemas | cubes => rfl
    | dimensions => exact hs.unused .dimensions ⟨_, key⟩ rfl (Nat.lt_succ_self _)
    | measures => exact hs.unused .measures ⟨_, key⟩ rfl (Nat.lt_succ_self _)
    | hierarchies => exact hs.unused .hierarchies ⟨_, key⟩ rfl (Nat.lt_succ_self _)
    | levels => exact hs.unused .levels ⟨_, key⟩ rfl (Nat.lt_succ_self _)
    | members => exact hs.unused .members ⟨_, key⟩ rfl (Nat.lt_succ_self _)
  · intro l h hl hlt
    cases l with
    | databases | catalogs | schemas | cubes => cases hl
    | dimensions => exact hs.unused .dimensions h rfl (Nat.lt_of_succ_lt hlt)
    | measures => exact hs.unused .measures h rfl (Nat.lt_of_succ_lt hlt)
    | hierarchies => exact hs.unused .hierarchies h rfl (Nat.lt_of_succ_lt hlt)
    | levels => exact hs.unused .levels h rfl (Nat.lt_of_succ_lt hlt)
    | members => exact hs.unused .members h rfl (Nat.lt_of_succ_lt hlt)

/-- A slot that a name has now may be given such items. -/
theorem Keeps.set (hs : s.Keeps kept) {l : Listing} {key : l.Key} {h : Handle l.Key}
    (hh : h = s.handle l key) {t : Slot l.Item}
    (ht : ∀ items, t.items? = some items → kept l key items) :
    ((Place.of l h).set t s).Keeps kept := by
  subst hh
  refine ⟨?_, ?_⟩
  · intro m name items hitems
    rw [Place.handle_set] at hitems
    by_cases hm : m = l
    · subst hm
      by_cases hname : name = key
      · subst hname
        rw [Place.get_set] at hitems
        exact ht items hitems
      · have hne : s.handle m name ≠ s.handle m key := by
          intro e
          rw [← key_handle s m name, e, key_handle] at hname
          exact hname rfl
        rw [Place.get_set_of_ne (Listing.single_eq_false hname) hne] at hitems
        exact hs.kept m name items hitems
    · rw [Place.get_set_of_listing_ne hm] at hitems
      exact hs.kept m name items hitems
  · intro m h hm hlt
    rw [Place.handle_set] at hlt
    by_cases hml : m = l
    · subst hml
      have hne : h ≠ s.handle m key := by
        intro e
        rw [e, key_handle] at hlt
        exact Nat.lt_irrefl _ hlt
      rw [Place.get_set_of_ne hm hne]
      exact hs.unused m h hm hlt
    · rw [Place.get_set_of_listing_ne hml]
      exact hs.unused m h hm hlt

end Shelves

/-! ### Engines with fixed answers -/

/-- The items that an engine with fixed answers lists. -/
def Engine.answerTo (answers : Request → Outcome RowSet) (l : Listing)
    (restrictions : Restrictions) : Outcome (List l.Item) := do
  l.readItems (← answers (.list l restrictions))

namespace Session

variable {σ α : Type} {place : Place α} {fetch : Session σ (List α)} {shelves : Shelves} {state : σ}

theorem run_look (f : Shelves → α) (shelves : Shelves) (state : σ) :
    (look f : Session σ α).run (shelves, state) = (.ok (f shelves), shelves, state) := rfl

theorem run_change (f : Shelves → Shelves) (shelves : Shelves) (state : σ) :
    (change f : Session σ Unit).run (shelves, state) = (.ok (), f shelves, state) := rfl

theorem run_outcome (x : Session σ α) (s : Shelves × σ) :
    (outcome x).run s = (.ok (x.run s).1, (x.run s).2) := rfl

theorem run_return {β : Type} (f : α → β) (x : Session σ α) (s : Shelves × σ) :
    (do return f (← x) : Session σ β).run s = (f <$> (x.run s).1, (x.run s).2) := by
  rw [run_bind]
  rcases x.run s with ⟨_ | _, _⟩ <;> rfl

/-- Items that a slot holds are the answer. -/
theorem run_itemsOf_some {items : List α} (h : (place.get shelves).items? = some items) :
    (itemsOf place fetch).run (shelves, state) = (.ok items, shelves, state) := by
  rw [itemsOf, run_bind, run_look]
  simp only [h]
  rfl

/-- Items that were fetched are the answer, and the slot goes on to hold them. -/
theorem run_itemsOf_none (h : (place.get shelves).items? = none) {result : Outcome (List α)}
    {state' : σ} (hplace : ∀ t s, place.get (place.set t s) = t)
    (hfetch : ∀ shelves, fetch.run (shelves, state) = (result, shelves, state')) :
    (itemsOf place fetch).run (shelves, state)
      = (result, place.set ((place.get shelves).start.finish (place.get shelves).start.attempt
          result) (place.set (place.get shelves).start shelves), state') := by
  rw [itemsOf, run_bind, run_look]
  simp only [h]
  rw [run_bind, run_change]
  simp only [run_bind, run_look, run_outcome, run_change, hfetch, hplace]
  rfl

end Session

namespace Store

variable {σ : Type} (s : Store σ)

/-- What the engine of a store lists, if its answers are fixed. -/
def answer (answers : Request → Outcome RowSet) (q : Inquiry) : Outcome (List q.listing.Item) :=
  Engine.answerTo answers q.listing (s.restrictions q)

variable {s} {answers : Request → Outcome RowSet}

/-- What is fetched does not depend on what is kept. -/
theorem run_fetchItems (s : Store σ) (q : Inquiry) (shelves : Shelves) (state : σ) :
    (s.fetchItems q).run (shelves, state)
      = ((s.engine (.list q.listing (s.restrictions q)) state).1 >>= q.listing.readItems, shelves,
        (s.engine (.list q.listing (s.restrictions q)) state).2) := by
  have hask : (s.ask (.list q.listing (s.restrictions q))).run (shelves, state)
      = ((s.engine (.list q.listing (s.restrictions q)) state).1, shelves,
        (s.engine (.list q.listing (s.restrictions q)) state).2) := rfl
  rw [fetchItems, Session.run_bind, hask]
  cases (s.engine (.list q.listing (s.restrictions q)) state).1 <;> rfl

theorem run_fetchItems_of_answers (hs : s.engine = .ofAnswers answers) (q : Inquiry)
    (shelves : Shelves) (state : σ) :
    (s.fetchItems q).run (shelves, state) = (s.answer answers q, shelves, state) := by
  rw [run_fetchItems, hs]
  rfl

/-- **What a store answers** is what it keeps or what the engine lists, and it keeps its answers. -/
theorem keeps_list {kept : (l : Listing) → l.Key → List l.Item → Prop} {shelves : Shelves}
    (hs : s.engine = .ofAnswers answers) (hk : shelves.Keeps kept) {q : Inquiry}
    (hq : ∀ items, s.answer answers q = .ok items → kept q.listing q.key items) (state : σ) :
    ((s.list q).run (shelves, state)).2.1.Keeps kept
      ∧ (((s.list q).run (shelves, state)).1 = s.answer answers q
        ∨ ∃ items, kept q.listing q.key items
          ∧ ((s.list q).run (shelves, state)).1 = .ok items) := by
  rw [list, Session.run_bind, Session.run_look]
  dsimp only
  cases h : ((Place.of q.listing (shelves.handle q.listing q.key)).get shelves).items? with
  | some items =>
    rw [Session.run_itemsOf_some h]
    exact ⟨hk, .inr ⟨items, hk.kept _ _ items h, rfl⟩⟩
  | none =>
    rw [Session.run_itemsOf_none h Place.get_set fun shelves =>
      run_fetchItems_of_answers hs q shelves state]
    refine ⟨?_, .inl rfl⟩
    refine (hk.set rfl ?_).set (Place.handle_set ..).symm ?_
    · nofun
    · exact fun items hitems => hq items (Slot.eq_ok_of_items?_finish hitems)

end Store

/-! ### Connections -/

namespace Call

/-- What a use of a connection asks its store for. -/
def inquiry? : Call → Option Inquiry
  | databases => some .databases
  | catalogs => some .catalogs
  | schemas => some .schemas
  | cubes | cube _ => some .cubes
  | dimensions x => some (.dimensions x)
  | hierarchies x d => some (.hierarchies x d)
  | levels x h => some (.levels x h)
  | members x l => some (.members x l)
  | measures x => some (.measures x)
  | reset | explain _ | execute _ | setLocale _ => none

/-- Whether a use of a connection discards everything that its store keeps. -/
def discards : Call → Bool
  | reset | setLocale _ => true
  | _ => false

/-- Whether a use of a connection evaluates a statement. -/
def evaluates : Call → Bool
  | explain _ | execute _ => true
  | _ => false

theorem discards_eq_false {call : Call} {q : Inquiry} (h : call.inquiry? = some q) :
    call.discards = false := by
  cases call with
  | reset | setLocale _ => cases h
  | _ => rfl

/-- What a store was asked for since everything was last discarded. -/
def recent (calls : List Call) : List Inquiry :=
  calls.foldl (fun asked call => if call.discards then [] else asked ++ call.inquiry?.toList) []

theorem recent_append (calls : List Call) (call : Call) :
    recent (calls ++ [call])
      = if call.discards then [] else recent calls ++ call.inquiry?.toList := by
  rw [recent, List.foldl_append]
  rfl

end Call

namespace Connection

variable {σ : Type} {c : Connection σ} {answers : Request → Outcome RowSet}

/-- A use of a connection that asks its store for something changes what is kept as the store does
when it is asked. -/
theorem shelves_step (c : Connection σ) {call : Call} {q : Inquiry} (h : call.inquiry? = some q) :
    (c.step call).shelves = (c.run (·.list q)).2.shelves := by
  cases call with
  | reset | setLocale _ | explain _ | execute _ => cases h
  | databases | catalogs | schemas | cubes | measures _ | hierarchies _ _ =>
    cases h
    rfl
  | cube name =>
    cases h
    have hrun := Session.run_return (fun cubes : List Cube => cubes.find? (isNamed · name))
      c.store.cubes (c.shelves, c.state)
    exact congrArg (fun r : Outcome (Option Cube) × Shelves × σ => r.2.1) hrun
  | dimensions x =>
    cases h
    simp only [step, Store.dimensions_eq_list]
    rfl
  | levels x a =>
    cases h
    simp only [step, Store.levels_eq_list]
    rfl
  | members x a =>
    cases h
    simp only [step, Store.members_eq_list]
    rfl

/-- A use of a connection that asks for nothing and evaluates no statement discards everything. -/
theorem shelves_step_of_none (c : Connection σ) {call : Call} (h : call.inquiry? = none)
    (hevaluates : call.evaluates = false) :
    call.discards = true ∧ (c.step call).shelves = c.shelves.reset := by
  cases call with
  | reset | setLocale _ => exact ⟨rfl, rfl⟩
  | explain _ | execute _ => cases hevaluates
  | databases | catalogs | schemas | cubes | cube _ | measures _ | dimensions _ | hierarchies _ _
  | levels _ _ | members _ _ => cases h

@[simp] theorem store_step (c : Connection σ) (call : Call) : (c.step call).store = c.store := by
  cases call <;> rfl

@[simp] theorem store_after (c : Connection σ) (calls : List Call) :
    (c.after calls).store = c.store := by
  induction calls generalizing c with
  | nil => rfl
  | cons call calls ih => exact (ih _).trans (store_step c call)

/-- What an engine with fixed answers lists for something that was asked for. -/
def Kept (s : Store σ) (answers : Request → Outcome RowSet) (asked : List Inquiry) (l : Listing)
    (key : l.Key) (items : List l.Item) : Prop :=
  ∃ q ∈ asked, q.slot = ⟨l, key⟩
    ∧ Engine.answerTo answers l (s.restrictions q) = .ok items

/-- What is kept was asked for since everything was last discarded. -/
theorem keeps_after (hc : c.engine = .ofAnswers answers) (hempty : c.shelves = {})
    {calls : List Call} (hcalls : ∀ call ∈ calls, call.evaluates = false) :
    (c.after calls).shelves.Keeps (Kept c.store answers (Call.recent calls)) := by
  induction calls using List.reverseRecOn with
  | nil => exact hempty ▸ Shelves.keeps_empty
  | append_singleton calls call ih =>
    have hkeeps := ih fun call h => hcalls call (List.mem_append_left _ h)
    have hafter : c.after (calls ++ [call]) = (c.after calls).step call := List.foldl_append
    rw [hafter, Call.recent_append]
    cases hq : call.inquiry? with
    | none =>
      obtain ⟨hdiscards, hshelves⟩ := shelves_step_of_none (c.after calls) hq
        (hcalls call (List.mem_append_right _ List.mem_cons_self))
      rw [hshelves]
      exact hkeeps.reset
    | some q =>
      rw [shelves_step _ hq, Call.discards_eq_false hq, if_neg nofun]
      have hmono : (c.after calls).shelves.Keeps
          (Kept c.store answers (Call.recent calls ++ [q])) :=
        hkeeps.mono fun l key items ⟨q', hmem, h⟩ => ⟨q', List.mem_append_left _ hmem, h⟩
      have hengine : (c.after calls).store.engine = .ofAnswers answers := by
        rw [store_after]
        exact hc
      refine (Store.keeps_list hengine hmono ?_ _).1
      intro items hitems
      rw [store_after] at hitems
      exact ⟨q, List.mem_append_right _ List.mem_cons_self, rfl, hitems⟩

/-- **An answer does not depend on what was asked before** unless something else was asked for in
its slot. -/
theorem list_after (hc : c.engine = .ofAnswers answers) (hempty : c.shelves = {})
    {calls : List Call} (hcalls : ∀ call ∈ calls, call.evaluates = false) {q : Inquiry}
    (hq : ∀ q' ∈ Call.recent calls,
      q'.slot = q.slot → c.store.restrictions q' = c.store.restrictions q) :
    ((c.after calls).run (·.list q)).1 = c.store.answer answers q := by
  have hkeeps : (c.after calls).shelves.Keeps (Kept c.store answers (Call.recent calls ++ [q])) :=
    (keeps_after hc hempty hcalls).mono
      fun l key items ⟨q', hmem, h⟩ => ⟨q', List.mem_append_left _ hmem, h⟩
  have hengine : (c.after calls).store.engine = .ofAnswers answers := by
    rw [store_after]
    exact hc
  have hanswer : ∀ items, (c.after calls).store.answer answers q = .ok items →
      Kept c.store answers (Call.recent calls ++ [q]) q.listing q.key items := by
    intro items hitems
    rw [store_after] at hitems
    exact ⟨q, List.mem_append_right _ List.mem_cons_self, rfl, hitems⟩
  rcases (Store.keeps_list hengine hkeeps hanswer (c.after calls).state).2 with
    h | ⟨items, hkept, h⟩
  · exact h.trans (by rw [store_after])
  · obtain ⟨q', hmem, hslot, hitems⟩ := hkept
    have hrestrictions : c.store.restrictions q' = c.store.restrictions q := by
      rcases List.mem_append.1 hmem with hmem | hmem
      · exact hq q' hmem hslot
      · rw [List.mem_singleton.1 hmem]
    rw [hrestrictions] at hitems
    exact h.trans hitems.symm

/-- **A store answers like a new one.**  The engine answers every request in the same way whenever
it is asked.  Then what a store is asked for the cube of a name, or for the dimensions, measures and
hierarchies of an object, it answers as if it had not been asked before.  The same is true of levels
unless it was asked for those of a hierarchy with the same unique name in another dimension, and of
members unless it was asked for those of a level with the same unique name elsewhere. -/
theorem transparent (hc : c.engine = .ofAnswers answers) (hempty : c.shelves = {})
    {calls : List Call} (hcalls : ∀ call ∈ calls, call.evaluates = false) :
    (∀ name, ((c.after calls).run (·.cube? name)).1 = (c.run (·.cube? name)).1)
    ∧ (∀ cube, ((c.after calls).run (·.dimensions cube)).1 = (c.run (·.dimensions cube)).1)
    ∧ (∀ cube, ((c.after calls).run (·.measures cube)).1 = (c.run (·.measures cube)).1)
    ∧ (∀ cube d, ((c.after calls).run (·.hierarchies cube d)).1 = (c.run (·.hierarchies cube d)).1)
    ∧ (∀ cube h, (∀ cube' h', .levels cube' h' ∈ Call.recent calls →
        cube'.label.name = cube.label.name → h'.label.uniqueName = h.label.uniqueName →
          h'.dimension = h.dimension) →
        ((c.after calls).run (·.levels cube h)).1 = (c.run (·.levels cube h)).1)
    ∧ ∀ cube l, (∀ cube' l', .members cube' l' ∈ Call.recent calls →
        cube'.label.name = cube.label.name → l'.label.uniqueName = l.label.uniqueName →
          l'.dimension = l.dimension ∧ l'.hierarchy = l.hierarchy) →
        ((c.after calls).run (·.members cube l)).1 = (c.run (·.members cube l)).1 := by
  -- both sides are what the engine lists
  have hsame : ∀ q : Inquiry, (∀ q' ∈ Call.recent calls, q'.slot = q.slot → q'.Agrees q) →
      ((c.after calls).run (·.list q)).1 = (c.run (·.list q)).1 := by
    intro q hq
    have hused := list_after hc hempty hcalls fun q' hmem hslot =>
      (hq q' hmem hslot).restrictions_eq hslot c.store
    have hnew := @list_after _ _ _ hc hempty [] nofun q nofun
    exact hused.trans hnew.symm
  refine ⟨?_, ?_, ?_, ?_, ?_, ?_⟩
  · intro name
    have hcubes := hsame .cubes fun q' _ _ => by cases q' <;> trivial
    have hfind : ∀ c' : Connection σ, (c'.run (·.cube? name)).1
        = (fun xs : List Cube => xs.find? (isNamed · name)) <$> (c'.run (·.list .cubes)).1 :=
      fun c' => congrArg Prod.fst (Session.run_return _ c'.store.cubes (c'.shelves, c'.state))
    rw [hfind, hfind, hcubes]
  · intro x
    simp only [Store.dimensions_eq_list]
    exact hsame (.dimensions x) fun q' _ _ => by cases q' <;> trivial
  · intro x
    simp only [Store.measures_eq_list]
    exact hsame (.measures x) fun q' _ _ => by cases q' <;> trivial
  · intro x d
    simp only [Store.hierarchies_eq_list]
    exact hsame (.hierarchies x d) fun q' _ _ => by cases q' <;> trivial
  · intro x h hrecent
    simp only [Store.levels_eq_list]
    refine hsame (.levels x h) fun q' hmem hslot => ?_
    have hkey : HEq q'.key _ := (Sigma.mk.inj hslot).2
    cases q' with
    | levels x' h' =>
      obtain ⟨hname, hunique⟩ := Prod.mk.inj (eq_of_heq hkey)
      exact hrecent x' h' hmem hname hunique
    | _ => trivial
  · intro x l hrecent
    simp only [Store.members_eq_list]
    refine hsame (.members x l) fun q' hmem hslot => ?_
    have hkey : HEq q'.key _ := (Sigma.mk.inj hslot).2
    cases q' with
    | members x' l' =>
      obtain ⟨hname, hunique⟩ := Prod.mk.inj (eq_of_heq hkey)
      exact hrecent x' l' hmem hname hunique
    | _ => trivial

end Connection

/-! ### A unique name that is used twice -/

namespace Calendars

/-- A table of texts. -/
def table (columns : List String) (rows : List (List String)) : Outcome RowSet :=
  RowSet.ofRows? columns (rows.map (·.map .simple))

/-- A cube with two hierarchies of dates.  Both have a level with the unique name `[Year]`. -/
def tables : TableEngine where
  listings := fun
    | .cubes => table [Column.cubeName] [["Sales"]]
    | .dimensions => table [Column.cubeName, Column.dimensionUniqueName] [["Sales", "[Date]"]]
    | .hierarchies =>
      table [Column.cubeName, Column.dimensionUniqueName, Column.hierarchyUniqueName]
        [["Sales", "[Date]", "[Calendar]"], ["Sales", "[Date]", "[Fiscal]"]]
    | .levels =>
      table [Column.cubeName, Column.dimensionUniqueName, Column.hierarchyUniqueName,
          Column.levelUniqueName]
        [["Sales", "[Date]", "[Calendar]", "[Year]"], ["Sales", "[Date]", "[Fiscal]", "[Year]"]]
    | .members =>
      table [Column.cubeName, Column.dimensionUniqueName, Column.hierarchyUniqueName,
          Column.levelUniqueName, Column.memberUniqueName]
        [["Sales", "[Date]", "[Calendar]", "[Year]", "[2024]"],
          ["Sales", "[Date]", "[Fiscal]", "[Year]", "[FY24]"]]
    | .databases | .catalogs | .schemas | .measures => .ok (.empty [])
  result := .ok (.empty [])

/-- A new connection to the cube. -/
def connection : Connection Unit where
  config := {}
  engine := .ofAnswers tables.answer
  state := ()

def cube : Cube := ⟨⟨"[Sales]", "Sales", "Sales", ""⟩, "", ""⟩

def dimension : Dimension := ⟨⟨"[Date]", "[Date]", "[Date]", ""⟩, "Sales", .unknown, 0⟩

def hierarchy (name : String) : Hierarchy := ⟨⟨name, name, name, ""⟩, "Sales", "[Date]"⟩

/-- The level of years in a hierarchy. -/
def level (hierarchy : String) : Level :=
  ⟨⟨"[Year]", "[Year]", "[Year]", ""⟩, "Sales", "[Date]", hierarchy, 0, 0⟩

/-- A year in a hierarchy. -/
def member (hierarchy name : String) : Member := .regular ⟨name, name, name, ""⟩ (level hierarchy) 0

/-- The way to the years of the first hierarchy. -/
def calls : List Call :=
  [.cube "Sales", .dimensions cube, .hierarchies cube dimension,
    .levels cube (hierarchy "[Calendar]"), .levels cube (hierarchy "[Fiscal]"), .members cube (level "[Calendar]")]

set_option maxRecDepth 100000 in
/-- **Two levels with one unique name are taken for the same.**  All objects come from earlier
answers.  The members of the level of fiscal years are said to be those of the other level of years,
while a new store answers with the fiscal year. -/
theorem not_transparent :
    (connection.run (·.cube? "Sales")).1 = .ok (some cube)
      ∧ ((connection.after (calls.take 1)).run (·.dimensions cube)).1 = .ok [dimension]
      ∧ ((connection.after (calls.take 2)).run (·.hierarchies cube dimension)).1
        = .ok [hierarchy "[Calendar]", hierarchy "[Fiscal]"]
      ∧ ((connection.after (calls.take 3)).run (·.levels cube (hierarchy "[Calendar]"))).1
        = .ok [level "[Calendar]"]
      ∧ ((connection.after (calls.take 4)).run (·.levels cube (hierarchy "[Fiscal]"))).1
        = .ok [level "[Fiscal]"]
      ∧ ((connection.after calls).run (·.members cube (level "[Fiscal]"))).1
        = .ok [member "[Calendar]" "[2024]"]
      ∧ (connection.run (·.members cube (level "[Fiscal]"))).1
        = .ok [member "[Fiscal]" "[FY24]"] := by
  decide +kernel

end Calendars

/-- Levels and members of the first hierarchy are what a new store answers. -/
theorem Connection.transparent_calendars :
    ((Calendars.connection.after Calendars.calls).run (·.levels Calendars.cube
        (Calendars.hierarchy "[Calendar]"))).1
      = (Calendars.connection.run (·.levels Calendars.cube (Calendars.hierarchy "[Calendar]"))).1
    ∧ ((Calendars.connection.after Calendars.calls).run (·.members Calendars.cube
        (Calendars.level "[Calendar]"))).1
      = (Calendars.connection.run (·.members Calendars.cube (Calendars.level "[Calendar]"))).1 := by
  have hcalls : ∀ call ∈ Calendars.calls, call.evaluates = false := by decide
  have hrecent : Call.recent Calendars.calls = [.cubes, .dimensions Calendars.cube,
      .hierarchies Calendars.cube Calendars.dimension,
      .levels Calendars.cube (Calendars.hierarchy "[Calendar]"),
      .levels Calendars.cube (Calendars.hierarchy "[Fiscal]"),
      .members Calendars.cube (Calendars.level "[Calendar]")] := rfl
  obtain ⟨-, -, -, -, hlevels, hmembers⟩ :=
    @Connection.transparent _ Calendars.connection _ rfl rfl _ hcalls
  rw [hrecent] at hlevels hmembers
  refine ⟨hlevels _ _ ?_, hmembers _ _ ?_⟩
  · intro cube h hmem _ _
    obtain ⟨-, rfl⟩ | ⟨-, rfl⟩ : (cube = Calendars.cube ∧ h = Calendars.hierarchy "[Calendar]")
        ∨ cube = Calendars.cube ∧ h = Calendars.hierarchy "[Fiscal]" := by simpa using hmem
    all_goals rfl
  · intro cube l hmem _ _
    obtain ⟨-, rfl⟩ : cube = Calendars.cube ∧ l = Calendars.level "[Calendar]" := by
      simpa using hmem
    exact ⟨rfl, rfl⟩

end Datacube
