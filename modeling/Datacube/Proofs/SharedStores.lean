import Datacube.Proofs.Freshness
import Datacube.Proofs.Transparency

/-!
# A shared store that is used by one at a time

A call of a shared store that is not interrupted does what a store does when it is asked, and so
does a reset.  Whatever a store may do is therefore one of the runs of a shared store.

## Main definitions

* `SharedStore.Shows` — whether a shared store keeps what the collections of a store hold.
* `SharedStore.askEvents`, `SharedStore.resetEvents` — a call and a reset without interruption.

## Main results

* `SharedStore.shows_ask` — **a call that is not interrupted** is answered like an inquiry.
* `SharedStore.shows_reset` — **a reset that is not interrupted** is a reset of the collections.
* `Connection.exists_shows_after` — what a connection keeps, a shared store may keep.
-/

namespace Datacube

/-! ### One slot -/

/-- An attempt that has ended is not under way. -/
theorem Slot.status_finish_ne {α : Type} (s : Slot α) (result : Outcome (List α)) :
    (s.finish s.attempt result).status ≠ .populating := by
  cases result with
  | error e =>
    rw [finish_error]
    nofun
  | ok items =>
    rw [finish_ok]
    nofun

namespace Crew

variable {α : Type}

/-- The thread that came last takes its turn. -/
theorem turn_last (slot : Slot α) (threads : List (Phase α)) (phase : Phase α) (calls : Nat)
    (result : Outcome (List α)) :
    (⟨slot, threads ++ [phase], calls⟩ : Crew α).turn threads.length result
      = ⟨(phase.advance result slot).1, threads ++ [(phase.advance result slot).2],
        if (phase.advance result slot).2.isFetching then calls + 1 else calls⟩ := by
  rw [turn]
  simp only [List.getElem?_concat_length, List.set_append_right _ _ (Nat.le_refl _), Nat.sub_self,
    List.set_cons_zero]

/-- The events in which one more thread asks for the items and takes its turns, where its request
is answered by `result`. -/
def askEvents (c : Crew α) (result : Outcome (List α)) : List (Event α) :=
  .arrive :: List.replicate 3 (.turn c.threads.length result)

variable {c : Crew α} (result : Outcome (List α))

private theorem run_askEvents : c.run (c.askEvents result)
    = (((⟨c.slot, c.threads ++ [.idle], c.calls⟩ : Crew α).turn c.threads.length result).turn
      c.threads.length result).turn c.threads.length result := rfl

/-- **A thread that is alone** gets the items that the slot holds. -/
theorem run_ask_some {items : List α} (h : c.slot.status = .populated items) :
    c.run (c.askEvents result) = ⟨c.slot, c.threads ++ [.done (.ok items)], c.calls⟩ := by
  have hlook : Phase.look c.slot = (c.slot, .done (.ok items)) := by
    rw [Phase.look, h]
  rw [run_askEvents, turn_last, Phase.advance, hlook]
  exact (congrArg (·.turn c.threads.length result) (turn_last ..)).trans (turn_last ..)

/-- **A thread that is alone** fetches the items if the slot holds none. -/
theorem run_ask_none (h : c.slot.status = .empty) : c.run (c.askEvents result)
    = ⟨c.slot.start.finish c.slot.start.attempt result, c.threads ++ [.done result],
      c.calls + 1⟩ := by
  have hlook : Phase.look c.slot = (c.slot.start, .fetching c.slot.start.attempt) := by
    rw [Phase.look, h]
  rw [run_askEvents, turn_last, Phase.advance, hlook]
  exact (congrArg (·.turn c.threads.length result) (turn_last ..)).trans (turn_last ..)

end Crew

/-! ### Slots by key -/

namespace KeyedCrew

variable {κ α : Type} [DecidableEq κ]

/-- The events in which one more thread asks for the items of a key and takes its turns. -/
def askEvents (k : KeyedCrew κ α) (key : κ) (result : Outcome (List α)) : List (Event κ α) :=
  .arrive key :: List.replicate 3
    (.turn (k.handle key) (k.crew (k.handle key)).threads.length result)

/-- A thread that asks changes nothing at other slots. -/
theorem crew_ask (k : KeyedCrew κ α) (key : κ) (result : Outcome (List α)) (h : Handle κ) :
    (k.run (k.askEvents key result)).crew h = if h = k.handle key
      then (k.crew h).run ((k.crew h).askEvents result) else k.crew h := by
  rw [crew_run]
  by_cases hh : h = k.handle key
  · subst hh
    rw [if_pos rfl]
    congr 1
    simp [eventsAt, askEvents, locate, Crew.askEvents, List.replicate]
  · rw [if_neg hh]
    have hnone : k.eventsAt h (k.askEvents key result) = [] := by
      simp [eventsAt, askEvents, locate, List.replicate, hh]
    rw [hnone]
    rfl

end KeyedCrew

/-! ### Stores -/

namespace SharedStore

variable {c : SharedStore} {s : Shelves}

/-- Whether a shared store at rest keeps what the collections of a store hold. -/
structure Shows (c : SharedStore) (s : Shelves) : Prop where
  handle : ∀ l key, (c.slots l).handle key = s.handle l key
  /-- A collection with a single slot has no others. -/
  slot : ∀ l h, (l.single = true → h = s.handle l h.key) →
    (c.crew l h).slot = (Place.of l h).get s
  idle : ∀ l h, (l.single = true → h = s.handle l h.key) →
    (c.crew l h).slot.status ≠ .populating

/-- **New stores keep nothing.** -/
theorem shows_empty : Shows {} {} := by
  refine ⟨?_, ?_, fun _ _ _ => nofun⟩
  · intro l key
    cases l <;> rfl
  · intro l h _
    cases l <;> rfl

/-! ### Calls -/

/-- The events in which somebody asks for something and takes its turns. -/
def askEvents (c : SharedStore) (q : Inquiry) (result : Outcome (List q.listing.Item)) :
    List Event :=
  let h := (c.slots q.listing).handle q.key
  .call q :: List.replicate 3 (.turn q.listing h (c.crew q.listing h).threads.length result)

/-- Events at one collection change this collection alone. -/
theorem slots_foldl_act (c : SharedStore) (l : Listing)
    (events : List (KeyedCrew.Event l.Key l.Item)) :
    (events.foldl (fun c e => c.act l e) c).slots
      = Function.update c.slots l ((c.slots l).run events) := by
  induction events generalizing c with
  | nil => exact (Function.update_eq_self ..).symm
  | cons e events ih =>
    rw [List.foldl_cons, ih, slots_act]
    exact Function.update_idem ..

/-- A call happens at one collection. -/
theorem slots_ask (c : SharedStore) (q : Inquiry) (result : Outcome (List q.listing.Item)) :
    (c.run (c.askEvents q result)).slots = Function.update c.slots q.listing
      ((c.slots q.listing).run ((c.slots q.listing).askEvents q.key result)) := by
  have hrun : c.run (c.askEvents q result)
      = ((c.slots q.listing).askEvents q.key result).foldl (fun c e => c.act q.listing e) c := rfl
  rw [hrun]
  exact slots_foldl_act ..

/-- A call happens at one slot. -/
theorem crew_ask (c : SharedStore) (q : Inquiry) (result : Outcome (List q.listing.Item)) :
    (c.run (c.askEvents q result)).crew q.listing ((c.slots q.listing).handle q.key)
      = (c.crew q.listing ((c.slots q.listing).handle q.key)).run
        ((c.crew q.listing ((c.slots q.listing).handle q.key)).askEvents result) := by
  rw [crew, slots_ask, Function.update_self]
  exact (KeyedCrew.crew_ask ..).trans (if_pos rfl)

theorem crew_ask_of_ne (c : SharedStore) (q : Inquiry) (result : Outcome (List q.listing.Item))
    {l : Listing} {h : Handle l.Key}
    (hne : (⟨l, h⟩ : Σ l : Listing, Handle l.Key) ≠ ⟨q.listing, (c.slots q.listing).handle q.key⟩) :
    (c.run (c.askEvents q result)).crew l h = c.crew l h := by
  rw [crew, slots_ask]
  by_cases hl : l = q.listing
  · subst hl
    have hh : h ≠ (c.slots q.listing).handle q.key := fun e => hne (congrArg _ e)
    rw [Function.update_self]
    exact (KeyedCrew.crew_ask ..).trans (if_neg hh)
  · rw [Function.update_of_ne hl]
    rfl

/-- A call does not drop slots. -/
theorem handle_ask (c : SharedStore) (q : Inquiry) (result : Outcome (List q.listing.Item))
    (l : Listing) (key : l.Key) :
    ((c.run (c.askEvents q result)).slots l).handle key = (c.slots l).handle key := by
  rw [slots_ask]
  by_cases hl : l = q.listing
  · subst hl
    rw [Function.update_self]
    exact KeyedCrew.handle_run _ (by simp [KeyedCrew.askEvents]) key
  · rw [Function.update_of_ne hl]

/-- A slot stays as it is when another one is changed. -/
private theorem get_set_of_ne (s : Shelves) {l m : Listing} {key : l.Key} {g : Handle m.Key}
    (hne : (⟨m, g⟩ : Σ l : Listing, Handle l.Key) ≠ ⟨l, s.handle l key⟩)
    (hg : m.single = true → g = s.handle m g.key) (t : Slot l.Item) (s' : Shelves) :
    (Place.of m g).get ((Place.of l (s.handle l key)).set t s') = (Place.of m g).get s' := by
  by_cases hm : m = l
  · subst hm
    have hgh : g ≠ s.handle m key := fun e => hne (congrArg _ e)
    refine Place.get_set_of_ne ?_ hgh t s'
    cases hsingle : m.single with
    | false => rfl
    | true =>
      -- a collection with a single slot has only one name for it
      have hkey : g.key ≠ key := fun e => hgh (e ▸ hg hsingle)
      rw [Listing.single_eq_false hkey] at hsingle
      cases hsingle
  · exact Place.get_set_of_listing_ne hm t s'

variable {σ : Type}

/-- **A call that is not interrupted** is answered like an inquiry, and what is kept after it is
what a store keeps. -/
theorem shows_ask (hc : c.Shows s) (store : Store σ) (q : Inquiry) (state : σ) :
    let h := (c.slots q.listing).handle q.key
    let c' := c.run (c.askEvents q ((store.fetchItems q).run (s, state)).1)
    c'.Shows ((store.list q).run (s, state)).2.1
      ∧ (c'.crew q.listing h).threads
        = (c.crew q.listing h).threads ++ [.done ((store.list q).run (s, state)).1] := by
  intro h c'
  have hh : h = s.handle q.listing q.key := hc.handle q.listing q.key
  have hslot : (c.crew q.listing h).slot = (Place.of q.listing h).get s :=
    hc.slot q.listing h fun _ => hh
  have hcrew : c'.crew q.listing h = (c.crew q.listing h).run
      ((c.crew q.listing h).askEvents ((store.fetchItems q).run (s, state)).1) := crew_ask ..
  have hrest : ∀ l g, (⟨l, g⟩ : Σ l : Listing, Handle l.Key) ≠ ⟨q.listing, h⟩ →
      c'.crew l g = c.crew l g := fun l g hne => crew_ask_of_ne c q _ hne
  have hhandle : ∀ l key, (c'.slots l).handle key = s.handle l key :=
    fun l key => (handle_ask c q _ l key).trans (hc.handle l key)
  have hfetch := fun shelves => store.run_fetchItems q shelves state
  rw [Store.list, Session.run_bind, Session.run_look]
  dsimp only
  rw [← hh]
  cases hstatus : (c.crew q.listing h).slot.status with
  | populating => exact absurd hstatus (hc.idle q.listing h fun _ => hh)
  | populated items =>
    have hitems : ((Place.of q.listing h).get s).items? = some items := by
      rw [← hslot, Slot.items?, hstatus]
    have hslots : ∀ l g, (c'.crew l g).slot = (c.crew l g).slot := by
      intro l g
      by_cases hg : (⟨l, g⟩ : Σ l : Listing, Handle l.Key) = ⟨q.listing, h⟩
      · cases hg
        rw [hcrew, Crew.run_ask_some _ hstatus]
      · rw [hrest l g hg]
    rw [Session.run_itemsOf_some hitems]
    refine ⟨⟨hhandle, ?_, ?_⟩, by rw [hcrew, Crew.run_ask_some _ hstatus]⟩
    · exact fun l g hg => (hslots l g).trans (hc.slot l g hg)
    · exact fun l g hg => hslots l g ▸ hc.idle l g hg
  | empty =>
    have hitems : ((Place.of q.listing h).get s).items? = none := by
      rw [← hslot, Slot.items?, hstatus]
    rw [Crew.run_ask_none _ hstatus] at hcrew
    rw [Session.run_itemsOf_none hitems Place.get_set hfetch]
    refine ⟨⟨?_, ?_, ?_⟩, ?_⟩
    · intro l key
      rw [Place.handle_set, Place.handle_set]
      exact hhandle l key
    · intro l g hg
      rw [Place.handle_set, Place.handle_set] at hg
      by_cases hne : (⟨l, g⟩ : Σ l : Listing, Handle l.Key) = ⟨q.listing, h⟩
      · cases hne
        rw [hcrew, Place.get_set, hslot, store.run_fetchItems]
      · rw [hrest l g hne, hc.slot l g hg, hh, get_set_of_ne s (hh ▸ hne) hg,
          get_set_of_ne s (hh ▸ hne) hg]
    · intro l g hg
      rw [Place.handle_set, Place.handle_set] at hg
      by_cases hne : (⟨l, g⟩ : Σ l : Listing, Handle l.Key) = ⟨q.listing, h⟩
      · cases hne
        rw [hcrew]
        exact Slot.status_finish_ne _ _
      · rw [hrest l g hne]
        exact hc.idle l g hg
    · rw [hcrew, store.run_fetchItems]

/-! ### Resets -/

/-- The events in which somebody resets the store. -/
def resetEvents (c : SharedStore) : List Event :=
  .beginReset :: List.replicate Listing.all.length (.discard c.resets.length)

/-- **What a reset has yet to discard** is discarded, each collection once. -/
theorem slots_discard {r : Nat} {todo : List Listing} (htodo : c.resets[r]? = some todo)
    (hnodup : todo.Nodup) (l : Listing) :
    (c.run (List.replicate todo.length (.discard r))).slots l
      = if l ∈ todo then (c.slots l).step (l.discarding (c.slots l)) else c.slots l := by
  induction todo generalizing c with
  | nil => rfl
  | cons m todo ih =>
    obtain ⟨hm, hnodup⟩ := List.nodup_cons.1 hnodup
    have hr : r < c.resets.length := (List.getElem?_eq_some_iff.1 htodo).1
    have hstep : c.step (.discard r)
        = { c.act m (m.discarding (c.slots m)) with resets := c.resets.set r todo } := by
      rw [step, htodo]
    have hnext : (c.step (.discard r)).resets[r]? = some todo := by
      rw [hstep]
      exact List.getElem?_set_self hr
    have hslots : ∀ l, (c.step (.discard r)).slots l
        = (c.act m (m.discarding (c.slots m))).slots l := by
      rw [hstep]
      exact fun _ => rfl
    have hrun : c.run (List.replicate (m :: todo).length (.discard r))
        = (c.step (.discard r)).run (List.replicate todo.length (.discard r)) := rfl
    rw [hrun, ih hnext hnodup, hslots]
    by_cases hl : l = m
    · subst hl
      rw [if_neg hm, if_pos List.mem_cons_self, slots_act]
    · rw [slots_act_of_ne c hl]
      simp only [List.mem_cons, hl, false_or]

/-- **A reset that is not interrupted** is a reset of the collections. -/
theorem shows_reset (hc : c.Shows s) : (c.run c.resetEvents).Shows s.reset := by
  have hrun : c.run c.resetEvents = (c.step .beginReset).run
      (List.replicate Listing.all.length (.discard c.resets.length)) := List.foldl_cons ..
  have hbegin : (c.step .beginReset).resets[c.resets.length]? = some Listing.all :=
    List.getElem?_concat_length
  have hnodup : Listing.all.Nodup := by decide
  have hslots : ∀ l, (c.run c.resetEvents).slots l
      = (c.slots l).step (l.discarding (c.slots l)) := by
    intro l
    rw [hrun, slots_discard hbegin hnodup, if_pos l.mem_all]
    rfl
  -- a single slot is reset, and all others are dropped
  have hcurrent : ∀ l (h : Handle l.Key), (l.single = true → h = s.reset.handle l h.key) →
      l.single = true → h = s.handle l h.key := by
    intro l h hh hl
    cases l with
    | databases | catalogs | schemas | cubes => exact hh rfl
    | dimensions | measures | hierarchies | levels | members => cases hl
  have hcrew : ∀ l h, (l.single = true → h = s.handle l h.key) →
      (c.run c.resetEvents).crew l h
        = if l.single then (c.crew l h).step .reset else c.crew l h := by
    intro l h hh
    rw [crew, hslots]
    cases hl : l.single with
    | true =>
      rw [Listing.discarding_of_single hl _ h.key]
      exact if_pos ((hh hl).trans (hc.handle l h.key).symm)
    | false =>
      rw [Listing.discarding_of_not_single hl]
      rfl
  refine ⟨?_, ?_, ?_⟩
  · intro l key
    rw [hslots]
    cases l with
    | databases | catalogs | schemas | cubes => exact hc.handle _ key
    | dimensions | measures | hierarchies | levels | members =>
      exact congrArg (fun g : Handle _ => (⟨g.generation + 1, key⟩ : Handle _)) (hc.handle _ key)
  · intro l h hh
    have hslot := hc.slot l h (hcurrent l h hh)
    rw [hcrew l h (hcurrent l h hh)]
    cases l with
    | databases | catalogs | schemas | cubes => exact congrArg Slot.reset hslot
    | dimensions | measures | hierarchies | levels | members => exact hslot
  · intro l h hh
    rw [hcrew l h (hcurrent l h hh)]
    cases l.single with
    | true => nofun
    | false => exact hc.idle l h (hcurrent l h hh)

end SharedStore

/-- **Whatever a connection keeps** after any uses that evaluate no statement, a shared store may
keep, too. -/
theorem Connection.exists_shows_after {σ : Type} {c : Connection σ} (hempty : c.shelves = {})
    {calls : List Call} (hcalls : ∀ call ∈ calls, call.evaluates = false) :
    ∃ events, (SharedStore.run {} events).Shows (c.after calls).shelves := by
  induction calls using List.reverseRecOn with
  | nil => exact ⟨[], hempty ▸ SharedStore.shows_empty⟩
  | append_singleton calls call ih =>
    obtain ⟨events, hshows⟩ := ih fun call h => hcalls call (List.mem_append_left _ h)
    have hafter : c.after (calls ++ [call]) = (c.after calls).step call := List.foldl_append
    have hcall := hcalls call (List.mem_append_right _ List.mem_cons_self)
    suffices hmore : ∃ more, ((SharedStore.run {} events).run more).Shows
        ((c.after calls).step call).shelves by
      obtain ⟨more, hmore⟩ := hmore
      rw [← SharedStore.run_append, ← hafter] at hmore
      exact ⟨events ++ more, hmore⟩
    cases hq : call.inquiry? with
    | none =>
      rw [(shelves_step_of_none _ hq hcall).2]
      exact ⟨_, SharedStore.shows_reset hshows⟩
    | some q =>
      rw [shelves_step _ hq]
      exact ⟨_, (SharedStore.shows_ask hshows (c.after calls).store q (c.after calls).state).1⟩

end Datacube
