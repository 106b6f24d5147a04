import Datacube.Proofs.SharedSlots
import Datacube.SharedStore
import Mathlib.Data.List.Induction

/-!
# Freshness

A call that begins after a reset has ended gets items whose request was sent after the reset began,
even if requests from before were under way in the meantime.  Attempts at a slot are numbered in the
order in which they begin.  When a slot is reset, all attempts under way are superseded, and what
the slot holds from then on comes from attempts with higher numbers.  When slots are dropped, nobody
who asks later gets to one of them.

## Main definitions

* `Crew.Hands` — whether a thread is about to get the items of an attempt.
* `Crew.Renewed` — what ties a slot to the attempts that began after a moment at which it was empty.
* `SharedStore.Tidy` — what is known of a shared store at any moment.
* `SharedStore.Answers`, `SharedStore.Gets` — the attempts of which a thread gets the items.

## Main results

* `Crew.renewed_step` — **a slot that was empty holds items of later attempts only**.
* `SharedStore.exists_discard` — a reset that has ended has discarded every collection.
* `SharedStore.fresh_of_reset` — **no stale items after a reset**.
-/

namespace Datacube

variable {α κ : Type}

/-! ### One slot -/

namespace Crew

variable {c : Crew α}

/-- Whether the thread with index `i` is about to get the items of attempt `k`: they are the answer
to its own request, or it asks while the slot holds them. -/
def Hands (c : Crew α) (i k : Nat) (items : List α) : Prop :=
  c.threads[i]? = some (.fetched k (.ok items))
    ∨ (∃ phase, c.threads[i]? = some phase ∧ phase.Asks)
      ∧ c.slot.status = .populated items ∧ c.slot.attempt = k

/-- A thread that gets items gets them from some attempt. -/
theorem exists_hands {i : Nat} {items : List α} {result : Outcome (List α)}
    (hbefore : c.threads[i]? ≠ some (.done (.ok items)))
    (hafter : (c.turn i result).threads[i]? = some (.done (.ok items))) :
    ∃ k, c.Hands i k items := by
  cases h : c.threads[i]? with
  | none =>
    rw [turn_of_none h, h] at hafter
    cases hafter
  | some phase =>
    obtain ⟨slot, next, hmoves, hturn⟩ := turn_of_moves h result
    rw [hturn] at hafter
    obtain rfl : next = .done (.ok items) :=
      Option.some.inj (((threads_set h).trans (if_pos rfl)).symm.trans hafter)
    cases hmoves with
    | take hasks hstatus => exact ⟨_, .inr ⟨⟨phase, h, hasks⟩, hstatus, rfl⟩⟩
    | finish => exact ⟨_, .inl h⟩
    | stay => exact absurd h hbefore

/-- What ties a slot to the attempts that began after a moment at which it was empty.  At that
moment `n` was the number of its latest attempt, and there were `m` threads.  The answers to the
requests of later attempts satisfy `P`. -/
structure Renewed (n m : Nat) (P : Nat → List α → Prop) (c : Crew α) : Prop where
  sound : c.Sound
  le : n ≤ c.slot.attempt
  populating : c.slot.status = .populating → n < c.slot.attempt
  populated : ∀ items, c.slot.status = .populated items →
    n < c.slot.attempt ∧ P c.slot.attempt items
  /-- Threads that came later make later attempts. -/
  later : ∀ i k, m ≤ i → c.attempt? i = some k → n < k
  fetched : ∀ (i k : Nat) (items : List α), c.threads[i]? = some (.fetched k (.ok items)) →
    n < k → P k items

/-- A slot is renewed when it is empty. -/
theorem Sound.renewed (hc : c.Sound) (hempty : c.slot.status = .empty)
    (P : Nat → List α → Prop) : c.Renewed c.slot.attempt c.threads.length P where
  sound := hc
  le := Nat.le_refl _
  populating := by
    intro h
    rw [hempty] at h
    cases h
  populated := by
    intro items h
    rw [hempty] at h
    cases h
  later := by
    intro i k hi hk
    rw [attempt?, List.getElem?_eq_none hi] at hk
    cases hk
  fetched := by
    intro i k items hi hk
    exact absurd (hc.le i k (attempt?_of_thread hi)) (Nat.not_le.2 hk)

variable {n m : Nat} {P : Nat → List α → Prop}

/-- **What later threads get** comes from later attempts. -/
theorem Renewed.hands (hc : c.Renewed n m P) {i k : Nat} {items : List α} (hi : m ≤ i)
    (h : c.Hands i k items) : n < k ∧ P k items := by
  rcases h with hfetched | ⟨-, hstatus, rfl⟩
  · have hk := hc.later i k hi (attempt?_of_thread hfetched)
    exact ⟨hk, hc.fetched i k items hfetched hk⟩
  · exact hc.populated items hstatus

private theorem Renewed.moves (hc : c.Renewed n m P) {i : Nat} {phase next : Phase α}
    {slot : Slot α} (h : c.threads[i]? = some phase) {result : Outcome (List α)}
    (hmoves : phase.Moves result c.slot slot next)
    (hresult : ∀ k items, phase = .fetching k → result = .ok items → n < k → P k items)
    (calls : Nat) (hsound : (⟨slot, c.threads.set i next, calls⟩ : Crew α).Sound) :
    (⟨slot, c.threads.set i next, calls⟩ : Crew α).Renewed n m P := by
  have hi := attempt?_of_thread h
  have hlater : (∀ k, m ≤ i → next.attempt? = some k → n < k) → ∀ j k, m ≤ j →
      (⟨slot, c.threads.set i next, calls⟩ : Crew α).attempt? j = some k → n < k := by
    intro hnext j k hj hk
    rw [attempt?_set h] at hk
    split at hk
    · rename_i hij
      exact hnext k (hij ▸ hj) hk
    · exact hc.later j k hj hk
  have hfetched : (∀ k items, next = .fetched k (.ok items) → n < k → P k items) →
      ∀ (j k : Nat) (items : List α),
        (c.threads.set i next)[j]? = some (.fetched k (.ok items)) → n < k → P k items := by
    intro hnext j k items hj
    rw [threads_set h] at hj
    split at hj
    · exact hnext k items (Option.some.inj hj)
    · exact hc.fetched j k items hj
  -- the slot changes only at the beginning and at the end of an attempt
  cases hmoves with
  | take | wait | fail | stay =>
    exact ⟨hsound, hc.le, hc.populating, hc.populated, hlater nofun, hfetched nofun⟩
  | answer =>
    refine ⟨hsound, hc.le, hc.populating, hc.populated, hlater ?_, hfetched ?_⟩
    · intro k hm hk
      exact hc.later i k hm (hi.trans hk)
    · rintro k items ⟨⟩
      exact hresult _ _ rfl rfl
  | start =>
    have hlt : n < c.slot.attempt + 1 := Nat.lt_succ_of_le hc.le
    refine ⟨hsound, Nat.le_of_lt hlt, fun _ => hlt, nofun, hlater ?_, hfetched nofun⟩
    rintro k - ⟨⟩
    exact hlt
  | @finish attempt answer =>
    by_cases hlatest : c.slot.attempt = attempt
    -- the slot waits for the attempt that ends
    · subst hlatest
      have hlt := hc.populating (hc.sound.populating.2 ⟨i, hi⟩)
      have hlt' : n < (c.slot.finish c.slot.attempt answer).attempt := by
        rwa [Slot.attempt_finish]
      refine ⟨hsound, Nat.le_of_lt hlt', fun _ => hlt', ?_, hlater nofun, hfetched nofun⟩
      intro items hstatus
      cases answer with
      | error e =>
        rw [Slot.finish_error] at hstatus
        cases hstatus
      | ok items =>
        rw [Slot.finish_ok] at hstatus ⊢
        cases hstatus
        exact ⟨hlt, hc.fetched i _ items h hlt⟩
    · rw [Slot.finish_of_superseded hlatest] at hsound ⊢
      exact ⟨hsound, hc.le, hc.populating, hc.populated, hlater nofun, hfetched nofun⟩

/-- **A slot that was empty holds items of later attempts only**, whatever happens. -/
theorem renewed_step (hc : c.Renewed n m P) (event : Event α)
    (hevent : ∀ i k items, event = .turn i (.ok items) → c.threads[i]? = some (.fetching k) →
      n < k → P k items) : (c.step event).Renewed n m P := by
  have hsound := sound_step hc.sound event
  cases event with
  | get => exact hc
  | arrive =>
    refine ⟨hsound, hc.le, hc.populating, hc.populated, ?_, ?_⟩
    · intro i k hi
      rw [attempt?_arrive]
      exact hc.later i k hi
    · intro i k items hi
      change (c.threads ++ [.idle])[i]? = _ at hi
      rw [List.getElem?_append] at hi
      split at hi
      · exact hc.fetched i k items hi
      · cases List.mem_singleton.1 (List.mem_of_getElem? hi)
  | reset =>
    exact ⟨hsound, Nat.le_succ_of_le hc.le, nofun, nofun, hc.later, hc.fetched⟩
  | turn i result =>
    change (c.turn i result).Sound at hsound
    change (c.turn i result).Renewed n m P
    cases h : c.threads[i]? with
    | none => rwa [turn_of_none h]
    | some phase =>
      obtain ⟨slot, next, hmoves, hturn⟩ := turn_of_moves h result
      rw [hturn] at hsound ⊢
      refine hc.moves h hmoves ?_ _ hsound
      rintro k items rfl rfl
      exact hevent i k items rfl h

/-- Attempts are numbered in the order in which they begin. -/
theorem attempt_step (c : Crew α) (event : Event α) :
    c.slot.attempt ≤ (c.step event).slot.attempt := by
  cases event with
  | arrive | get => exact Nat.le_refl _
  | reset => exact Nat.le_succ _
  | turn i result =>
    change _ ≤ (c.turn i result).slot.attempt
    cases h : c.threads[i]? with
    | none => exact Nat.le_of_eq (congrArg (·.slot.attempt) (turn_of_none h result).symm)
    | some phase =>
      obtain ⟨slot, next, hmoves, hturn⟩ := turn_of_moves h result
      rw [hturn]
      cases hmoves with
      | take | wait | fail | answer | stay => exact Nat.le_refl _
      | start => exact Nat.le_succ _
      | finish => exact Nat.le_of_eq (Slot.attempt_finish ..).symm

end Crew

/-! ### All slots of a store -/

namespace Listing

theorem discarding_of_single {l : Listing} (h : l.single = true) (k : KeyedCrew l.Key l.Item)
    (key : l.Key) : l.discarding k = .reset (k.handle key) := by
  cases l with
  | databases | catalogs | schemas | cubes => rfl
  | dimensions | measures | hierarchies | levels | members => cases h

theorem discarding_of_not_single {l : Listing} (h : l.single = false)
    (k : KeyedCrew l.Key l.Item) : l.discarding k = .clear := by
  cases l with
  | databases | catalogs | schemas | cubes => cases h
  | dimensions | measures | hierarchies | levels | members => rfl

theorem mem_all (l : Listing) : l ∈ all := by cases l <;> decide

end Listing

namespace SharedStore

variable {c : SharedStore} {l : Listing} {h : Handle l.Key}

theorem run_append (c : SharedStore) (events more : List Event) :
    c.run (events ++ more) = (c.run events).run more := List.foldl_append

theorem slots_act (c : SharedStore) (l : Listing) (event : KeyedCrew.Event l.Key l.Item) :
    (c.act l event).slots l = (c.slots l).step event := Function.update_self ..

theorem slots_act_of_ne (c : SharedStore) {l m : Listing} (hne : m ≠ l)
    (event : KeyedCrew.Event l.Key l.Item) : (c.act l event).slots m = c.slots m :=
  Function.update_of_ne hne ..

/-- What an event does to a collection: nothing, or something that happens to its slots. -/
theorem slots_step (c : SharedStore) (event : Event) (l : Listing) :
    (c.step event).slots l = c.slots l
      ∨ (∃ q : Inquiry, ∃ hq : q.listing = l, event = .call q
        ∧ (c.step event).slots l = (c.slots l).step (.arrive (hq ▸ q.key)))
      ∨ (∃ h i result, event = .turn l h i result
        ∧ (c.step event).slots l = (c.slots l).step (.turn h i result))
      ∨ (c.step event).slots l = (c.slots l).step (l.discarding (c.slots l)) := by
  cases event with
  | beginReset => exact .inl rfl
  | call q =>
    by_cases hl : l = q.listing
    · subst hl
      exact .inr (.inl ⟨q, rfl, rfl, slots_act ..⟩)
    · exact .inl (slots_act_of_ne c hl _)
  | turn m h i result =>
    by_cases hl : l = m
    · subst hl
      exact .inr (.inr (.inl ⟨h, i, result, rfl, slots_act ..⟩))
    · exact .inl (slots_act_of_ne c hl _)
  | discard r =>
    rw [step]
    split
    · rename_i m rest hr
      by_cases hl : l = m
      · subst hl
        exact .inr (.inr (.inr (slots_act ..)))
      · exact .inl (slots_act_of_ne c hl _)
    · exact .inl rfl

/-- What an event does to the threads at a slot: nothing, or one of them takes its turn, or, if its
name has this slot now, a thread arrives or the slot is reset. -/
theorem crew_step (c : SharedStore) (event : Event) (l : Listing) (h : Handle l.Key) :
    (c.step event).crew l h = c.crew l h
      ∨ (∃ i result, event = .turn l h i result
        ∧ (c.step event).crew l h = (c.crew l h).turn i result)
      ∨ h = (c.slots l).handle h.key ∧ ((c.step event).crew l h = (c.crew l h).step .arrive
        ∨ (c.step event).crew l h = (c.crew l h).step .reset) := by
  rcases slots_step c event l with hslots | ⟨q, rfl, hevent, hslots⟩
    | ⟨g, i, result, hevent, hslots⟩ | hslots
  · exact .inl (congrArg (·.crew h) hslots)
  · by_cases hg : h = (c.slots q.listing).handle q.key
    · exact .inr (.inr ⟨hg ▸ rfl, .inl ((congrArg (·.crew h) hslots).trans (if_pos hg))⟩)
    · exact .inl ((congrArg (·.crew h) hslots).trans (if_neg hg))
  · by_cases hg : h = g
    · subst hg
      exact .inr (.inl ⟨i, result, hevent, (congrArg (·.crew h) hslots).trans (if_pos rfl)⟩)
    · exact .inl ((congrArg (·.crew h) hslots).trans (if_neg hg))
  · cases hl : l.single with
    | true =>
      rw [Listing.discarding_of_single hl _ h.key] at hslots
      by_cases hg : h = (c.slots l).handle h.key
      · exact .inr (.inr ⟨hg, .inr ((congrArg (·.crew h) hslots).trans (if_pos hg))⟩)
      · exact .inl ((congrArg (·.crew h) hslots).trans (if_neg hg))
    | false =>
      rw [Listing.discarding_of_not_single hl] at hslots
      exact .inl (congrArg (·.crew h) hslots)

/-- The slots of a collection are dropped now and then, unless there is only one. -/
theorem generation_step (c : SharedStore) (event : Event) (l : Listing) :
    (c.slots l).generation ≤ ((c.step event).slots l).generation
      ∧ (l.single = true → ((c.step event).slots l).generation = (c.slots l).generation) := by
  rcases slots_step c event l with hslots | ⟨q, rfl, -, hslots⟩ | ⟨g, i, result, -, hslots⟩ | hslots
  · rw [hslots]
    exact ⟨Nat.le_refl _, fun _ => rfl⟩
  · rw [hslots]
    exact ⟨Nat.le_refl _, fun _ => rfl⟩
  · rw [hslots]
    exact ⟨Nat.le_refl _, fun _ => rfl⟩
  · cases hl : l.single with
    | true =>
      rw [hslots, KeyedCrew.generation_step]
      · exact ⟨Nat.le_refl _, fun _ => rfl⟩
      · cases l with
        | databases | catalogs | schemas | cubes => nofun
        | dimensions | measures | hierarchies | levels | members => cases hl
    | false =>
      rw [hslots, Listing.discarding_of_not_single hl]
      exact ⟨Nat.le_succ _, nofun⟩

theorem generation_run (c : SharedStore) (events : List Event) (l : Listing) :
    (c.slots l).generation ≤ ((c.run events).slots l).generation
      ∧ (l.single = true → ((c.run events).slots l).generation = (c.slots l).generation) := by
  induction events generalizing c with
  | nil => exact ⟨Nat.le_refl _, fun _ => rfl⟩
  | cons event events ih =>
    obtain ⟨hle, heq⟩ := generation_step c event l
    obtain ⟨hle', heq'⟩ := ih (c.step event)
    exact ⟨Nat.le_trans hle hle', fun hl => (heq' hl).trans (heq hl)⟩

/-- What is known of a shared store at any moment. -/
structure Tidy (c : SharedStore) : Prop where
  sound : ∀ l h, (c.crew l h).Sound
  /-- A slot has not been used before its name has it. -/
  unused : ∀ l (h : Handle l.Key), (c.slots l).generation < h.generation → c.crew l h = {}

theorem tidy_step (hc : c.Tidy) (event : Event) : (c.step event).Tidy := by
  refine ⟨?_, ?_⟩
  · intro l h
    rcases crew_step c event l h with hsame | ⟨i, result, -, hstep⟩ | ⟨-, hstep | hstep⟩
    · exact hsame ▸ hc.sound l h
    · exact hstep ▸ Crew.sound_step (hc.sound l h) (.turn i result)
    · exact hstep ▸ Crew.sound_step (hc.sound l h) .arrive
    · exact hstep ▸ Crew.sound_step (hc.sound l h) .reset
  · intro l h hlt
    have hlt' := Nat.lt_of_le_of_lt (generation_step c event l).1 hlt
    have hunused := hc.unused l h hlt'
    rcases crew_step c event l h with hsame | ⟨i, result, -, hstep⟩ | ⟨hcurrent, -⟩
    · exact hsame.trans hunused
    · rw [hstep, hunused]
      rfl
    · rw [hcurrent] at hlt'
      exact absurd hlt' (Nat.lt_irrefl _)

/-- **A shared store is tidy**, after any events. -/
theorem tidy_run (events : List Event) : (run {} events).Tidy := by
  have hempty : Tidy {} := ⟨fun _ _ => Crew.sound_empty, fun _ _ _ => rfl⟩
  suffices h : ∀ c : SharedStore, c.Tidy → (c.run events).Tidy from h {} hempty
  induction events with
  | nil => exact fun _ hc => hc
  | cons event events ih => exact fun c hc => ih _ (tidy_step hc event)

/-! ### Resets -/

/-- **A reset that has ended has discarded every collection**: a collection that a reset does not
have to discard any more was discarded since the reset began. -/
theorem exists_discard {r : Nat} (hr : c.resets.length ≤ r) {events : List Event}
    {todo : List Listing} (htodo : (c.run events).resets[r]? = some todo) (hl : l ∉ todo) :
    ∃ first rest later, events = first ++ .discard r :: rest
      ∧ (c.run first).resets[r]? = some (l :: later) := by
  induction events using List.reverseRecOn generalizing todo with
  | nil =>
    rw [run, List.foldl_nil, List.getElem?_eq_none hr] at htodo
    cases htodo
  | append_singleton events event ih =>
    have hbefore : ∀ {todo}, (c.run events).resets[r]? = some todo → l ∉ todo →
        ∃ first rest later, events ++ [event] = first ++ .discard r :: rest
          ∧ (c.run first).resets[r]? = some (l :: later) := by
      intro todo htodo hl
      obtain ⟨first, rest, later, rfl, hfirst⟩ := ih htodo hl
      exact ⟨first, rest ++ [event], later, List.append_assoc .., hfirst⟩
    rw [run_append] at htodo
    change ((c.run events).step event).resets[r]? = _ at htodo
    cases event with
    | call q => exact hbefore htodo hl
    | turn m g i result => exact hbefore htodo hl
    | beginReset =>
      change ((c.run events).resets ++ [Listing.all])[r]? = _ at htodo
      rw [List.getElem?_append] at htodo
      split at htodo
      · exact hbefore htodo hl
      · obtain rfl := List.mem_singleton.1 (List.mem_of_getElem? htodo)
        exact absurd l.mem_all hl
    | discard s =>
      rw [step] at htodo
      split at htodo
      · rename_i m later hs
        change ((c.run events).resets.set s later)[r]? = _ at htodo
        by_cases hsr : s = r
        · subst hsr
          by_cases hlm : l = m
          · subst hlm
            exact ⟨events, [], later, rfl, hs⟩
          · rw [List.getElem?_set_self (List.getElem?_eq_some_iff.1 hs).1] at htodo
            obtain rfl := Option.some.inj htodo
            exact hbefore hs (List.not_mem_cons_of_ne_of_not_mem hlm hl)
        · rw [List.getElem?_set_ne hsr] at htodo
          exact hbefore htodo hl
      · exact hbefore htodo hl

/-- A slot that a name has after it was discarded was empty at that moment. -/
theorem status_discard (hc : c.Tidy) {r : Nat} {later : List Listing}
    (hr : c.resets[r]? = some (l :: later)) {events : List Event}
    (hh : h = (((c.step (.discard r)).run events).slots l).handle h.key) :
    ((c.step (.discard r)).crew l h).slot.status = .empty := by
  have hslots : (c.step (.discard r)).slots l = (c.slots l).step (l.discarding (c.slots l)) := by
    rw [step, hr]
    exact slots_act ..
  obtain ⟨hle, heq⟩ := generation_run (c.step (.discard r)) events l
  have hgeneration := congrArg Handle.generation hh
  cases hl : l.single with
  | true =>
    rw [Listing.discarding_of_single hl _ h.key] at hslots
    have hcurrent : h = (c.slots l).handle h.key := by
      refine hh.trans (congrArg (Handle.mk · h.key) ?_)
      rw [heq hl, hslots]
      rfl
    change (((c.step (.discard r)).slots l).crew h).slot.status = _
    rw [hslots]
    exact congrArg (fun c : Crew l.Item => c.slot.status) (if_pos hcurrent)
  | false =>
    rw [Listing.discarding_of_not_single hl] at hslots
    have hlt : (c.slots l).generation < h.generation := by
      refine Nat.lt_of_lt_of_eq (Nat.lt_of_lt_of_le ?_ hle) hgeneration.symm
      rw [hslots]
      exact Nat.lt_succ_self _
    change (((c.step (.discard r)).slots l).crew h).slot.status = _
    rw [hslots]
    exact congrArg (·.slot.status) (hc.unused l h hlt)

/-- A thread comes to a slot while its name has this slot. -/
theorem exists_current {events : List Event}
    (hlt : (c.crew l h).threads.length < ((c.run events).crew l h).threads.length) :
    ∃ first rest, events = first ++ rest ∧ h = ((c.run first).slots l).handle h.key := by
  induction events generalizing c with
  | nil => exact absurd hlt (Nat.lt_irrefl _)
  | cons event events ih =>
    have hrest : ((c.step event).crew l h).threads.length = (c.crew l h).threads.length →
        ∃ first rest, event :: events = first ++ rest
          ∧ h = ((c.run first).slots l).handle h.key := by
      intro hlength
      obtain ⟨first, rest, rfl, hfirst⟩ := ih (hlength ▸ hlt)
      exact ⟨event :: first, rest, rfl, hfirst⟩
    rcases crew_step c event l h with hsame | ⟨i, result, -, hstep⟩ | ⟨hcurrent, -⟩
    · exact hrest (by rw [hsame])
    · refine hrest ?_
      rw [hstep, Crew.length_turn]
    · exact ⟨[], event :: events, rfl, hcurrent⟩

/-! ### Attempts and calls -/

/-- Whether the request of attempt `k` at a slot is answered with items in the course of events. -/
def Answers (c : SharedStore) (events : List Event) (l : Listing) (h : Handle l.Key) (k : Nat)
    (items : List l.Item) : Prop :=
  ∃ first i rest, events = first ++ .turn l h i (.ok items) :: rest
    ∧ ((c.run first).crew l h).threads[i]? = some (.fetching k)

/-- Whether a call gets the items of attempt `k` at a slot in the course of events. -/
def Gets (c : SharedStore) (events : List Event) (l : Listing) (h : Handle l.Key) (i k : Nat)
    (items : List l.Item) : Prop :=
  ∃ first result rest, events = first ++ .turn l h i result :: rest
    ∧ ((c.run first).crew l h).Hands i k items

theorem Answers.append_left (first : List Event) {events : List Event} {k : Nat}
    {items : List l.Item} (ha : (c.run first).Answers events l h k items) : c.Answers (first ++ events) l h k items := by
  obtain ⟨middle, i, rest, rfl, hi⟩ := ha
  refine ⟨first ++ middle, i, rest, (List.append_assoc ..).symm, ?_⟩
  rwa [run_append]

theorem Answers.append_right {events rest : List Event} {k : Nat} {items : List l.Item}
    (ha : c.Answers events l h k items) : c.Answers (events ++ rest) l h k items := by
  obtain ⟨middle, i, last, rfl, hi⟩ := ha
  exact ⟨middle, i, last ++ rest, List.append_assoc .., hi⟩

theorem Gets.append_left (first : List Event) {events : List Event} {i k : Nat}
    {items : List l.Item} (ha : (c.run first).Gets events l h i k items) : c.Gets (first ++ events) l h i k items := by
  obtain ⟨middle, result, rest, rfl, hi⟩ := ha
  refine ⟨first ++ middle, result, rest, (List.append_assoc ..).symm, ?_⟩
  rwa [run_append]

/-- **A slot goes on to hold items of later attempts only**, whatever happens to the store. -/
theorem renewed_run {n m : Nat} {P : Nat → List l.Item → Prop}
    (hc : (c.crew l h).Renewed n m P) (events : List Event)
    (hP : ∀ k items, n < k → c.Answers events l h k items → P k items) :
    ((c.run events).crew l h).Renewed n m P := by
  induction events generalizing c with
  | nil => exact hc
  | cons event events ih =>
    refine ih ?_ fun k items hk ha => hP k items hk (ha.append_left [event])
    rcases crew_step c event l h with hsame | ⟨i, result, hevent, hstep⟩ | ⟨-, hstep | hstep⟩
    · rwa [hsame]
    · rw [hstep]
      refine Crew.renewed_step hc (.turn i result) ?_
      rintro j k items ⟨⟩ hj hk
      exact hP k items hk ⟨[], i, events, hevent ▸ rfl, hj⟩
    · exact hstep ▸ Crew.renewed_step hc .arrive nofun
    · exact hstep ▸ Crew.renewed_step hc .reset nofun

/-- A call that gets items gets them from some attempt. -/
theorem exists_gets {i : Nat} {items : List l.Item} {events : List Event}
    (hbefore : (c.crew l h).threads[i]? ≠ some (.done (.ok items)))
    (hafter : ((c.run events).crew l h).threads[i]? = some (.done (.ok items))) :
    ∃ k, c.Gets events l h i k items := by
  induction events generalizing c with
  | nil => exact absurd hafter hbefore
  | cons event events ih =>
    by_cases hevent : ((c.step event).crew l h).threads[i]? = some (.done (.ok items))
    · rcases crew_step c event l h with hsame | ⟨j, result, rfl, hstep⟩ | ⟨-, hstep | hstep⟩
      · exact absurd (hsame ▸ hevent) hbefore
      · rw [hstep] at hevent
        by_cases hj : j = i
        · subst hj
          obtain ⟨k, hk⟩ := Crew.exists_hands hbefore hevent
          exact ⟨k, [], result, events, rfl, hk⟩
        · rw [Crew.threads_turn_of_ne hj] at hevent
          exact absurd hevent hbefore
      · rw [hstep] at hevent
        change ((c.crew l h).threads ++ [.idle])[i]? = _ at hevent
        rw [List.getElem?_append] at hevent
        split at hevent
        · exact absurd hevent hbefore
        · cases List.mem_singleton.1 (List.mem_of_getElem? hevent)
      · rw [hstep] at hevent
        exact absurd hevent hbefore
    · obtain ⟨k, hk⟩ := ih hevent hafter
      exact ⟨k, hk.append_left [event]⟩

/-- Attempts at a slot are numbered in the order in which they begin, and threads do not go away. -/
theorem grows_run (c : SharedStore) (events : List Event) (l : Listing) (h : Handle l.Key) :
    (c.crew l h).slot.attempt ≤ ((c.run events).crew l h).slot.attempt
      ∧ (c.crew l h).threads.length ≤ ((c.run events).crew l h).threads.length := by
  induction events generalizing c with
  | nil => exact ⟨Nat.le_refl _, Nat.le_refl _⟩
  | cons event events ih =>
    have hstep : ∀ e, (c.step event).crew l h = (c.crew l h).step e →
        (c.crew l h).slot.attempt ≤ ((c.step event).crew l h).slot.attempt
          ∧ (c.crew l h).threads.length ≤ ((c.step event).crew l h).threads.length :=
      fun e he => he ▸ ⟨Crew.attempt_step _ e, Crew.length_step _ e⟩
    obtain ⟨hattempt, hlength⟩ : (c.crew l h).slot.attempt ≤ ((c.step event).crew l h).slot.attempt
        ∧ (c.crew l h).threads.length ≤ ((c.step event).crew l h).threads.length := by
      rcases crew_step c event l h with hsame | ⟨i, result, -, hturn⟩ | ⟨-, harrive | hreset⟩
      · exact hstep .get hsame
      · exact hstep (.turn i result) hturn
      · exact hstep .arrive harrive
      · exact hstep .reset hreset
    exact ⟨Nat.le_trans hattempt (ih _).1, Nat.le_trans hlength (ih _).2⟩

/-- A call that came to an empty slot gets the items of a later attempt. -/
theorem fresh_of_empty (hsound : (c.crew l h).Sound) (hempty : (c.crew l h).slot.status = .empty)
    {i : Nat} (hi : (c.crew l h).threads.length ≤ i) {events : List Event} {items : List l.Item}
    (hanswer : ((c.run events).crew l h).threads[i]? = some (.done (.ok items))) :
    ∃ k, (c.crew l h).slot.attempt < k ∧ c.Answers events l h k items
      ∧ c.Gets events l h i k items := by
  have hbefore : (c.crew l h).threads[i]? ≠ some (.done (.ok items)) := by
    rw [List.getElem?_eq_none hi]
    nofun
  obtain ⟨k, hgets⟩ := exists_gets hbefore hanswer
  obtain ⟨first, result, rest, rfl, hhands⟩ := hgets
  have hrenewed := renewed_run (hsound.renewed hempty
    fun k items => c.Answers (first ++ .turn l h i result :: rest) l h k items) first
    fun k items _ ha => ha.append_right
  obtain ⟨hk, ha⟩ := hrenewed.hands hi hhands
  exact ⟨k, hk, ha, first, result, rest, rfl, hhands⟩

/-- **No stale items after a reset.**  A reset with index `r` begins after the events `before` and
has ended after the events `during`.  If a call that begins later gets items, they are those of an
attempt that began after `before`: attempts at a slot are numbered in the order in which they
begin. -/
theorem fresh_of_reset {before during after : List Event} {r : Nat} {l : Listing}
    {h : Handle l.Key} {i : Nat} {items : List l.Item}
    (hbegin : (run {} before).resets.length ≤ r)
    (hend : (run {} (before ++ during)).resets[r]? = some [])
    (hcall : ((run {} (before ++ during)).crew l h).threads.length ≤ i)
    (hanswer : ((run {} (before ++ during ++ after)).crew l h).threads[i]?
      = some (.done (.ok items))) :
    ∃ k, ((run {} before).crew l h).slot.attempt < k
      ∧ (run {} before).Answers (during ++ after) l h k items
      ∧ (run {} before).Gets (during ++ after) l h i k items := by
  rw [run_append] at hend hcall hanswer
  rw [run_append] at hanswer
  obtain ⟨first, rest, later, rfl, hr⟩ := exists_discard (l := l) hbegin hend List.not_mem_nil
  have htidy : ((run {} before).run first).Tidy := by
    rw [← run_append]
    exact tidy_run _
  -- `c` is the store after the reset has discarded this collection
  obtain ⟨c, hc⟩ : ∃ c, c = ((run {} before).run first).step (.discard r) := ⟨_, rfl⟩
  have hsplit : first ++ .discard r :: rest = (first ++ [.discard r]) ++ rest := by simp
  have hrun : (run {} before).run (first ++ [.discard r]) = c := by
    rw [hc, run_append]
    rfl
  rw [hsplit, run_append, hrun] at hcall hanswer
  -- the call came to the slot that its name had after that, and this slot was empty
  have hempty : (c.crew l h).slot.status = .empty := by
    have hlength := Nat.lt_of_le_of_lt hcall (List.getElem?_eq_some_iff.1 hanswer).1
    obtain ⟨middle, last, rfl, hcurrent⟩ := exists_current hlength
    rw [← run_append, hc] at hcurrent
    rw [hc]
    exact status_discard htidy hr hcurrent
  have hsound : (c.crew l h).Sound := hc ▸ (tidy_step htidy _).sound l h
  rw [← run_append] at hanswer
  obtain ⟨k, hk, hanswers, hgets⟩ := fresh_of_empty hsound hempty
    (Nat.le_trans (grows_run c rest l h).2 hcall) hanswer
  have hle := (grows_run (run {} before) (first ++ [.discard r]) l h).1
  rw [hrun] at hle
  refine ⟨k, Nat.lt_of_le_of_lt hle hk, ?_, ?_⟩
  · rw [hsplit, List.append_assoc]
    exact Answers.append_left _ (hrun ▸ hanswers)
  · rw [hsplit, List.append_assoc]
    exact Gets.append_left _ (hrun ▸ hgets)

/-- A request for the catalogs is under way while the store is reset, and is answered after that.
Who asks for the catalogs then gets those of another request. -/
theorem fresh_of_reset_catalogs :
    let old : Catalog := ⟨⟨"Old", "Old", "Old", ""⟩⟩
    let new : Catalog := ⟨⟨"New", "New", "New", ""⟩⟩
    let h : Handle Listing.catalogs.Key := ⟨0, ()⟩
    let before : List Event := [.call .catalogs, .turn .catalogs h 0 (.ok [])]
    let during : List Event := .beginReset :: List.replicate 9 (.discard 0)
    let after : List Event := [.turn .catalogs h 0 (.ok [old]), .call .catalogs,
      .turn .catalogs h 1 (.ok []), .turn .catalogs h 0 (.ok []),
      .turn .catalogs h 1 (.ok [new]), .turn .catalogs h 1 (.ok [])]
    ((run {} (before ++ during ++ after)).crew .catalogs h).threads[1]?
        = some (.done (.ok [new]))
      ∧ ∃ k, ((run {} before).crew .catalogs h).slot.attempt < k
        ∧ (run {} before).Answers (during ++ after) .catalogs h k [new]
        ∧ (run {} before).Gets (during ++ after) .catalogs h 1 k [new] := by
  intro old new h before during after
  have hanswer : ((run {} (before ++ during ++ after)).crew .catalogs h).threads[1]?
      = some (.done (.ok [new])) := by decide +kernel
  have hbegin : (run {} before).resets.length ≤ 0 := by decide +kernel
  have hend : (run {} (before ++ during)).resets[0]? = some [] := by decide +kernel
  have hcall : ((run {} (before ++ during)).crew .catalogs h).threads.length ≤ 1 := by
    decide +kernel
  exact ⟨hanswer, fresh_of_reset hbegin hend hcall hanswer⟩

end SharedStore

end Datacube
