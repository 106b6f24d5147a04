import Datacube.Proofs.SharedSlots
import Mathlib.Logic.ExistsUnique

/-!
# Single flight

If a slot is not reset and every request is answered with items, there is a single attempt to fetch
them, and all threads get its items.  The attempt passes through the same stages whatever the order
is in which the threads take their turns.

## Main definitions

* `Crew.Calm` — whether there are neither resets nor faults.
* `Crew.Stage` — how far the only attempt has come.
* `Crew.SingleFlight` — what is known of the threads at any moment.
* `Crew.SingleAttempt` — what is known of them if nothing fails and the slot is not reset.

## Main results

* `Crew.stage_step`, `Crew.stage_run` — **there is a single attempt** without resets and faults.
* `Crew.answered_of_rounds` — **every thread gets its items** if all threads take turns.
* `KeyedCrew.single_flight` — all of this, for one slot and for slots by key.
-/

namespace Datacube

variable {α κ : Type}

namespace Crew

variable {c : Crew α}

/-! ### Runs without resets and faults -/

/-- The result of the request that is answered in an event, if one is. -/
def result? (c : Crew α) : Event α → Option (Outcome (List α))
  | .turn i result => if (c.threads[i]?).any Phase.isFetching then some result else none
  | .arrive | .reset | .get => none

/-- The results of the requests that are answered in the course of events. -/
def results (c : Crew α) : List (Event α) → List (Outcome (List α))
  | [] => []
  | event :: events => (c.result? event).toList ++ (c.step event).results events

/-- Whether the slot is not reset in the course of events and every request is answered with
items. -/
structure Calm (c : Crew α) (events : List (Event α)) : Prop where
  reset : .reset ∉ events
  results : ∀ result ∈ c.results events, ∃ items, result = .ok items

theorem Calm.cons {event : Event α} {events : List (Event α)} (h : c.Calm (event :: events)) :
    event ≠ .reset ∧ (∀ result ∈ c.result? event, ∃ items, result = .ok items)
      ∧ (c.step event).Calm events := by
  obtain ⟨hreset, hresults⟩ := h
  refine ⟨?_, ?_, ?_, ?_⟩
  · rintro rfl
    exact hreset List.mem_cons_self
  · intro result hresult
    exact hresults result (List.mem_append_left _ (Option.mem_toList.2 hresult))
  · exact fun hmem => hreset (List.mem_cons_of_mem _ hmem)
  · exact fun result hresult => hresults result (List.mem_append_right _ hresult)

theorem Calm.of_append {events more : List (Event α)} (h : c.Calm (events ++ more)) :
    c.Calm events ∧ (c.run events).Calm more := by
  induction events generalizing c with
  | nil => exact ⟨⟨nofun, nofun⟩, h⟩
  | cons event events ih =>
    obtain ⟨hevent, hresult, hrest⟩ := h.cons
    obtain ⟨hevents, hmore⟩ := ih hrest
    refine ⟨⟨?_, ?_⟩, hmore⟩
    · simpa [hevent.symm] using hevents.reset
    · intro result hmem
      rcases List.mem_append.1 hmem with hmem | hmem
      · exact hresult result (Option.mem_toList.1 hmem)
      · exact hevents.results result hmem

/-- How far the only attempt has come. -/
inductive Stage (α : Type) where
  /-- No thread has looked at the slot. -/
  | unasked
  /-- A thread has begun the attempt. -/
  | asked (thread : Nat)
  /-- The request of that thread was answered. -/
  | answered (thread : Nat) (items : List α)
  /-- The slot holds the items. -/
  | served (items : List α)

namespace Stage

/-- The results of requests up to a stage. -/
def results : Stage α → List (Outcome (List α))
  | unasked | asked _ => []
  | answered _ items | served items => [.ok items]

/-- How many attempts were begun up to a stage. -/
def calls : Stage α → Nat
  | unasked => 0
  | asked _ | answered .. | served _ => 1

/-- The place of a stage among the others. -/
def rank : Stage α → Nat
  | unasked => 0
  | asked _ => 1
  | answered .. => 2
  | served _ => 3

theorem rank_le (stage : Stage α) : stage.rank ≤ 3 := by
  cases stage with
  | unasked => exact Nat.zero_le 3
  | asked thread => exact Nat.le_add_left 1 2
  | answered thread items => exact Nat.le_succ 2
  | served items => exact Nat.le_refl 3

/-- Whether a turn of the thread with index `i` leads to the next stage. -/
def Awaits (i : Nat) : Stage α → Prop
  | unasked => True
  | asked thread | answered thread _ => thread = i
  | served _ => False

/-- What the slot and the thread with index `i` are like at a stage. -/
def Admits (s : Slot α) (i : Nat) (phase : Phase α) : Stage α → Prop
  | unasked => phase = .idle
  | asked thread => if i = thread then phase = .fetching s.attempt else phase.Asks
  | answered thread items =>
    if i = thread then phase = .fetched s.attempt (.ok items) else phase.Asks
  | served items => phase.Asks ∨ phase = .done (.ok items)

/-- What a slot is like at a stage. -/
def status : Stage α → Slot.Status α
  | unasked => .empty
  | asked _ | answered .. => .populating
  | served items => .populated items

end Stage

/-- Whether the threads at a slot are at a stage. -/
structure At (c : Crew α) (stage : Stage α) : Prop where
  status : c.slot.status = stage.status
  failure : c.slot.failure = none
  threads : ∀ i phase, c.threads[i]? = some phase → stage.Admits c.slot i phase
  /-- The thread that makes the attempt is there. -/
  lt : ∀ i, stage.Awaits i → stage.rank ≠ 0 → i < c.threads.length
  calls : c.calls = stage.calls

theorem at_empty : ({} : Crew α).At .unasked :=
  ⟨rfl, rfl, nofun, fun _ _ h => absurd rfl h, rfl⟩

/-- The threads at a stage after one of them and the slot have changed. -/
private theorem At.of_set {i : Nat} {phase next : Phase α} (h : c.threads[i]? = some phase)
    {slot : Slot α} {calls : Nat} {stage : Stage α} (hstatus : slot.status = stage.status)
    (hfailure : slot.failure = none) (hnext : stage.Admits slot i next)
    (hothers : ∀ j other, j ≠ i → c.threads[j]? = some other → stage.Admits slot j other)
    (hlt : ∀ j, stage.Awaits j → stage.rank ≠ 0 → j < c.threads.length)
    (hcalls : calls = stage.calls) :
    (⟨slot, c.threads.set i next, calls⟩ : Crew α).At stage := by
  refine ⟨hstatus, hfailure, ?_, ?_, hcalls⟩
  · intro j other hj
    change (c.threads.set i next)[j]? = some other at hj
    rw [threads_set h] at hj
    split at hj
    · rename_i hij
      obtain rfl := Option.some.inj hj
      exact hij ▸ hnext
    · rename_i hij
      exact hothers j other (Ne.symm hij) hj
  · intro j hj hrank
    rw [List.length_set]
    exact hlt j hj hrank

/-- A thread at a slot that holds items gets them in one step. -/
private theorem At.moves_served {items : List α} (hc : c.At (.served items)) {i : Nat}
    {phase next : Phase α} {slot : Slot α} (h : c.threads[i]? = some phase)
    {result : Outcome (List α)} (hmoves : phase.Moves result c.slot slot next) :
    slot = c.slot ∧ next = .done (.ok items) := by
  have hadmits := hc.threads i phase h
  have hstatus := hc.status
  cases hmoves with
  | take _ hs =>
    rw [hs] at hstatus
    cases hstatus
    exact ⟨rfl, rfl⟩
  | wait _ hs => rw [hs] at hstatus; cases hstatus
  | start _ hs => rw [hs] at hstatus; cases hstatus
  | fail hfailure => rw [hc.failure] at hfailure; cases hfailure
  | answer | finish =>
    rcases hadmits with hasks | hdone
    · exact hasks.elim
    · cases hdone
  | stay =>
    rcases hadmits with hasks | hdone
    · exact hasks.elim
    · exact ⟨rfl, hdone⟩

/-- **One step of a thread** leads to the next stage or leaves the stage as it is.  The latter
happens only if the attempt does not wait for this thread. -/
private theorem At.moves {stage : Stage α} (hc : c.At stage) {i : Nat} {phase next : Phase α}
    {slot : Slot α} (h : c.threads[i]? = some phase) {result : Outcome (List α)}
    (hmoves : phase.Moves result c.slot slot next)
    (hresult : phase.isFetching = true → ∃ items, result = .ok items) :
    ∃ stage' : Stage α, (⟨slot, c.threads.set i next,
        if next.isFetching then c.calls + 1 else c.calls⟩ : Crew α).At stage'
      ∧ stage'.results = stage.results ++ (if phase.isFetching then [result] else [])
      ∧ (stage' = stage ∧ ¬stage.Awaits i ∨ stage.rank < stage'.rank) := by
  have hi : i < c.threads.length := (List.getElem?_eq_some_iff.1 h).1
  have hadmits := hc.threads i phase h
  have hstatus := hc.status
  have hcalls := hc.calls
  -- a fault is not there to be taken over
  have hfail : ∀ attempt e, c.slot.failure ≠ some (attempt, e) := by
    intro attempt e hfailure
    rw [hc.failure] at hfailure
    cases hfailure
  -- a thread that asks while the attempt is under way waits
  have hwait : phase.Asks → c.slot.status = .populating → ∃ attempt,
      slot = c.slot ∧ next = .waiting attempt := by
    intro hasks hpopulating
    cases hmoves with
    | take _ hs => rw [hs] at hpopulating; cases hpopulating
    | wait => exact ⟨_, rfl, rfl⟩
    | start _ hs => rw [hs] at hpopulating; cases hpopulating
    | fail hfailure => exact absurd hfailure (hfail _ _)
    | answer | finish | stay => exact hasks.elim
  cases stage with
  | unasked =>
    obtain rfl : phase = .idle := hadmits
    cases hmoves with
    | take _ hs => rw [hs] at hstatus; cases hstatus
    | wait _ hs => rw [hs] at hstatus; cases hstatus
    | start _ _ =>
      refine ⟨.asked i, ?_, rfl, .inr Nat.one_pos⟩
      refine At.of_set h rfl hc.failure ?_ ?_ ?_ ?_
      · rw [Stage.Admits, if_pos rfl]
      · intro j other hj hother
        obtain rfl : other = .idle := hc.threads j other hother
        rw [Stage.Admits, if_neg hj]
        trivial
      · rintro j rfl -
        exact hi
      · rw [hcalls]
        rfl
  | asked thread =>
    by_cases hthread : i = thread
    · subst hthread
      rw [Stage.Admits, if_pos rfl] at hadmits
      subst hadmits
      cases hmoves with
      | take hasks _ | wait hasks _ | start hasks _ => exact hasks.elim
      | answer =>
        obtain ⟨items, rfl⟩ := hresult rfl
        refine ⟨.answered i items, ?_, rfl, .inr (Nat.lt_succ_self 1)⟩
        refine At.of_set h hstatus hc.failure ?_ ?_ ?_ hcalls
        · rw [Stage.Admits, if_pos rfl]
        · intro j other hj hother
          have hasks := hc.threads j other hother
          rw [Stage.Admits, if_neg hj] at hasks
          rwa [Stage.Admits, if_neg hj]
        · rintro j rfl -
          exact hi
    · rw [Stage.Admits, if_neg hthread] at hadmits
      obtain ⟨attempt, rfl, rfl⟩ := hwait hadmits hstatus
      have hnot := hadmits.not_isFetching
      refine ⟨.asked thread, ?_, by simp [hnot], .inl ⟨rfl, fun he => hthread he.symm⟩⟩
      refine At.of_set h hstatus hc.failure ?_ (fun j other _ => hc.threads j other) hc.lt hcalls
      rw [Stage.Admits, if_neg hthread]
      trivial
  | answered thread items =>
    by_cases hthread : i = thread
    · subst hthread
      rw [Stage.Admits, if_pos rfl] at hadmits
      subst hadmits
      cases hmoves with
      | take hasks _ | wait hasks _ | start hasks _ => exact hasks.elim
      | finish =>
        rw [Slot.finish_ok]
        refine ⟨.served items, ?_, rfl, .inr (Nat.lt_succ_self 2)⟩
        refine At.of_set h rfl rfl (.inr rfl) ?_ nofun hcalls
        intro j other hj hother
        have hasks := hc.threads j other hother
        rw [Stage.Admits, if_neg hj] at hasks
        exact .inl hasks
    · rw [Stage.Admits, if_neg hthread] at hadmits
      obtain ⟨attempt, rfl, rfl⟩ := hwait hadmits hstatus
      have hnot := hadmits.not_isFetching
      refine ⟨.answered thread items, ?_, by simp [hnot], .inl ⟨rfl, fun he => hthread he.symm⟩⟩
      refine At.of_set h hstatus hc.failure ?_ (fun j other _ => hc.threads j other) hc.lt hcalls
      rw [Stage.Admits, if_neg hthread]
      trivial
  | served items =>
    have hnot : phase.isFetching = false := by
      rcases hadmits with hasks | rfl
      · exact hasks.not_isFetching
      · rfl
    obtain ⟨rfl, rfl⟩ := hc.moves_served h hmoves
    refine ⟨.served items, ?_, by simp [hnot], .inl ⟨rfl, id⟩⟩
    exact At.of_set h hstatus hc.failure (.inr rfl) (fun j other _ => hc.threads j other) hc.lt
      hcalls

/-- **Every event** leads to the next stage or leaves the stage as it is.  The latter happens only
if the attempt does not wait for the thread whose turn it is. -/
theorem stage_step {stage : Stage α} (hc : c.At stage) {event : Event α} (hreset : event ≠ .reset)
    (hresult : ∀ result ∈ c.result? event, ∃ items, result = .ok items) :
    ∃ stage' : Stage α, (c.step event).At stage'
      ∧ stage'.results = stage.results ++ (c.result? event).toList
      ∧ (stage' = stage ∧ (∀ i result, event = .turn i result → i < c.threads.length →
          ¬stage.Awaits i) ∨ stage.rank < stage'.rank) := by
  cases event with
  | reset => exact absurd rfl hreset
  | get => exact ⟨stage, hc, (List.append_nil _).symm, .inl ⟨rfl, nofun⟩⟩
  | arrive =>
    refine ⟨stage, ⟨hc.status, hc.failure, ?_, ?_, hc.calls⟩, (List.append_nil _).symm,
      .inl ⟨rfl, nofun⟩⟩
    · intro i phase hi
      change (c.threads ++ [.idle])[i]? = some phase at hi
      rw [List.getElem?_append] at hi
      split at hi
      · exact hc.threads i phase hi
      · rename_i hlt
        obtain rfl : phase = .idle := List.mem_singleton.1 (List.mem_of_getElem? hi)
        -- the thread that makes the attempt was there before
        cases stage with
        | unasked => rfl
        | asked thread =>
          rw [Stage.Admits, if_neg fun e => hlt (hc.lt i e.symm Nat.one_ne_zero)]
          trivial
        | answered thread items =>
          rw [Stage.Admits, if_neg fun e => hlt (hc.lt i e.symm (Nat.succ_ne_zero 1))]
          trivial
        | served items => exact .inl trivial
    · intro i hi hrank
      exact Nat.lt_of_lt_of_le (hc.lt i hi hrank) (length_step c .arrive)
  | turn i result =>
    cases h : c.threads[i]? with
    | none =>
      have hge := List.getElem?_eq_none_iff.1 h
      refine ⟨stage, ?_, ?_, .inl ⟨rfl, ?_⟩⟩
      · change (c.turn i result).At stage
        rwa [turn_of_none h]
      · simp [result?, h]
      · rintro j _ ⟨⟩ hlt
        exact absurd hlt (Nat.not_lt.2 hge)
    | some phase =>
      obtain ⟨slot, next, hmoves, hturn⟩ := turn_of_moves h result
      have hfetching : c.result? (.turn i result)
          = if phase.isFetching then some result else none := by
        rw [result?, h]
        rfl
      have hok : phase.isFetching = true → ∃ items, result = .ok items := by
        intro hf
        refine hresult result ?_
        rw [hfetching, if_pos hf]
        rfl
      obtain ⟨stage', hat, hresults, hrank⟩ := hc.moves h hmoves hok
      refine ⟨stage', ?_, ?_, ?_⟩
      · change (c.turn i result).At stage'
        rwa [hturn]
      · rw [hresults, hfetching]
        split <;> rfl
      · refine hrank.imp_left fun ⟨hsame, hawaits⟩ => ⟨hsame, ?_⟩
        rintro j _ ⟨⟩ -
        exact hawaits

/-- **There is a single attempt** in the course of events without resets and faults.  Whenever the
thread that it waits for takes its turn, it goes on. -/
theorem stage_run {stage : Stage α} (hc : c.At stage) {events : List (Event α)}
    (hcalm : c.Calm events) :
    ∃ stage' : Stage α, (c.run events).At stage'
      ∧ stage'.results = stage.results ++ c.results events
      ∧ (stage' = stage ∧ (∀ i result, .turn i result ∈ events → i < c.threads.length →
          ¬stage.Awaits i) ∨ stage.rank < stage'.rank) := by
  induction events generalizing c stage with
  | nil => exact ⟨stage, hc, (List.append_nil _).symm, .inl ⟨rfl, nofun⟩⟩
  | cons event events ih =>
    obtain ⟨hreset, hresult, hrest⟩ := hcalm.cons
    obtain ⟨stage₁, hc₁, hresults₁, hrank₁⟩ := stage_step hc hreset hresult
    obtain ⟨stage₂, hc₂, hresults₂, hrank₂⟩ := ih hc₁ hrest
    refine ⟨stage₂, hc₂, ?_, ?_⟩
    · rw [hresults₂, hresults₁, results, List.append_assoc]
    · rcases hrank₁ with ⟨rfl, hevent⟩ | hlt
      · refine hrank₂.imp_left fun ⟨hsame, hevents⟩ => ⟨hsame, ?_⟩
        intro i result hmem hi
        rcases List.mem_cons.1 hmem with rfl | hmem
        · exact hevent i result rfl hi
        · exact hevents i result hmem (Nat.lt_of_lt_of_le hi (length_step c event))
      · refine .inr ?_
        rcases hrank₂ with ⟨rfl, -⟩ | hlt'
        · exact hlt
        · exact Nat.lt_trans hlt hlt'

/-! ### Runs in which all threads take turns -/

/-- Whether all threads that are there at the beginning of a round take a turn in it, for several
rounds. -/
def Fair (c : Crew α) : List (List (Event α)) → Prop
  | [] => True
  | round :: rounds =>
    (∀ i < c.threads.length, ∃ result, .turn i result ∈ round) ∧ (c.run round).Fair rounds

/-- A thread keeps its answer. -/
theorem done_step {i : Nat} {answer : Outcome (List α)} (h : c.threads[i]? = some (.done answer))
    (event : Event α) : (c.step event).threads[i]? = some (.done answer) := by
  cases event with
  | reset | get => exact h
  | arrive =>
    change (c.threads ++ [.idle])[i]? = _
    rwa [List.getElem?_append_left (List.getElem?_eq_some_iff.1 h).1]
  | turn j result =>
    change (c.turn j result).threads[i]? = _
    cases hj : c.threads[j]? with
    | none => rwa [turn_of_none hj]
    | some phase =>
      obtain ⟨slot, next, hmoves, hturn⟩ := turn_of_moves hj result
      rw [hturn]
      change (c.threads.set j next)[i]? = _
      rw [threads_set hj]
      split
      · rename_i hji
        subst hji
        rw [h] at hj
        cases hj
        cases hmoves with
        | take hasks _ | wait hasks _ | start hasks _ => exact hasks.elim
        | stay => rfl
      · exact h

theorem done_run {i : Nat} {answer : Outcome (List α)} (h : c.threads[i]? = some (.done answer))
    (events : List (Event α)) : (c.run events).threads[i]? = some (.done answer) := by
  induction events generalizing c with
  | nil => exact h
  | cons event events ih => exact ih (done_step h event)

theorem length_run (c : Crew α) (events : List (Event α)) :
    c.threads.length ≤ (c.run events).threads.length := by
  induction events generalizing c with
  | nil => exact Nat.le_refl _
  | cons event events ih => exact Nat.le_trans (length_step c event) (ih _)

/-- As soon as the slot holds items, a thread that takes a turn gets them. -/
private theorem done_of_served {items : List α} (hc : c.At (.served items))
    {events : List (Event α)} (hcalm : c.Calm events) {i : Nat} (hi : i < c.threads.length) {result : Outcome (List α)}
    (hmem : .turn i result ∈ events) :
    (c.run events).threads[i]? = some (.done (.ok items)) := by
  induction events generalizing c with
  | nil => exact absurd hmem List.not_mem_nil
  | cons event events ih =>
    obtain ⟨hreset, hresult, hrest⟩ := hcalm.cons
    rcases List.mem_cons.1 hmem with rfl | hmem
    · have h := List.getElem?_eq_getElem hi
      obtain ⟨slot, next, hmoves, hturn⟩ := turn_of_moves h result
      obtain ⟨-, rfl⟩ := hc.moves_served h hmoves
      refine done_run (c := c.turn i result) ?_ events
      rw [hturn]
      exact (threads_set h).trans (if_pos rfl)
    · obtain ⟨stage, hat, -, ⟨rfl, -⟩ | hlt⟩ := stage_step hc hreset hresult
      · exact ih hat hrest (Nat.lt_of_lt_of_le hi (length_step c event)) hmem
      · exact absurd hlt (Nat.not_lt.2 stage.rank_le)

/-- Until the slot holds items, the attempt waits for some thread. -/
private theorem At.exists_awaits {stage : Stage α} (hc : c.At stage)
    (hthreads : 0 < c.threads.length) :
    (∃ i < c.threads.length, stage.Awaits i) ∨ ∃ items, stage = .served items := by
  cases stage with
  | unasked => exact .inl ⟨0, hthreads, trivial⟩
  | asked thread => exact .inl ⟨thread, hc.lt thread rfl Nat.one_ne_zero, rfl⟩
  | answered thread items => exact .inl ⟨thread, hc.lt thread rfl (Nat.succ_ne_zero 1), rfl⟩
  | served items => exact .inr ⟨items, rfl⟩

/-- **Every thread gets the items** if all threads take turns for four rounds: a round leads to the
next stage, and as soon as the slot holds items, one more round is enough. -/
theorem answered_of_rounds {stage : Stage α} (hc : c.At stage) {rounds : List (List (Event α))}
    (hcalm : c.Calm rounds.flatten) (hfair : c.Fair rounds)
    (hlength : 4 ≤ stage.rank + rounds.length) {i : Nat} (hi : i < c.threads.length) :
    ∃ items, (c.run rounds.flatten).threads[i]? = some (.done (.ok items)) := by
  induction rounds generalizing c stage with
  | nil => exact absurd hlength (Nat.not_le.2 (Nat.lt_succ_of_le stage.rank_le))
  | cons round rounds ih =>
    obtain ⟨hround, hrounds⟩ := hfair
    rw [List.flatten_cons] at hcalm
    obtain ⟨hcalm₁, hcalm₂⟩ := hcalm.of_append
    rw [List.flatten_cons, run_append]
    obtain ⟨stage₁, hc₁, -, ⟨rfl, hturns⟩ | hlt⟩ := stage_run hc hcalm₁
    -- the round leaves the stage as it is only if the slot holds items
    · rcases hc.exists_awaits (Nat.zero_lt_of_lt hi) with ⟨j, hj, hawaits⟩ | ⟨items, rfl⟩
      · obtain ⟨result, hmem⟩ := hround j hj
        exact absurd hawaits (hturns j result hmem hj)
      · obtain ⟨result, hmem⟩ := hround i hi
        exact ⟨items, done_run (done_of_served hc hcalm₁ hi hmem) _⟩
    · refine ih hc₁ hcalm₂ hrounds ?_ (Nat.lt_of_lt_of_le hi (length_run c round))
      rw [List.length_cons] at hlength
      omega

/-! ### Single flight -/

/-- What is known of threads at a slot at any moment. -/
structure SingleFlight (c : Crew α) : Prop where
  /-- The slot waits if and only if exactly one thread makes the latest attempt. -/
  populating : c.slot.status = .populating ↔ ∃! i, c.attempt? i = some c.slot.attempt
  unique : ∀ i j, c.attempt? i = some c.slot.attempt → c.attempt? j = some c.slot.attempt → i = j
  /-- If the latest attempt ends with a fault, the slot is empty and its thread reports the
  fault. -/
  fault : ∀ i e result, c.threads[i]? = some (.fetched c.slot.attempt (.error e)) →
    (c.turn i result).slot.status = .empty
      ∧ (c.turn i result).threads[i]? = some (.done (.error e))
  /-- A superseded attempt changes nothing but its own thread. -/
  superseded : ∀ i attempt result, c.attempt? i = some attempt → attempt ≠ c.slot.attempt →
    ∃ next, c.turn i result = { c with threads := c.threads.set i next }

theorem Sound.singleFlight (hc : c.Sound) : c.SingleFlight where
  populating := by
    rw [hc.populating]
    constructor
    · rintro ⟨i, hi⟩
      exact ⟨i, hi, fun j hj => hc.unique j i hj hi⟩
    · exact ExistsUnique.exists
  unique := hc.unique
  fault := by
    intro i e result h
    obtain ⟨slot, next, hmoves, hturn⟩ := turn_of_moves h result
    rw [hturn]
    cases hmoves with
    | take hasks _ | wait hasks _ | start hasks _ => exact hasks.elim
    | finish =>
      rw [Slot.finish_error]
      exact ⟨rfl, (threads_set h).trans (if_pos rfl)⟩
  superseded := by
    intro i attempt result hattempt hne
    cases h : c.threads[i]? with
    | none => rw [Crew.attempt?, h] at hattempt; cases hattempt
    | some phase =>
      rw [attempt?_of_thread h] at hattempt
      obtain ⟨slot, next, hmoves, hturn⟩ := turn_of_moves h result
      refine ⟨next, hturn.trans ?_⟩
      cases hmoves with
      | take hasks _ | wait hasks _ | start hasks _ =>
        rw [hasks.attempt?] at hattempt
        cases hattempt
      | fail | stay => cases hattempt
      | answer => rfl
      | finish =>
        cases hattempt
        rw [Slot.finish_of_superseded hne.symm]
        rfl

/-- What is known of threads at a slot that was empty before events without resets and faults. -/
structure SingleAttempt (events : List (Event α)) : Prop where
  le : (run {} events).calls ≤ 1
  /-- There is an attempt as soon as a thread has looked at the slot. -/
  eq_one : ∀ (i : Nat) (phase : Phase α), (run {} events).threads[i]? = some phase →
    phase ≠ .idle → (run {} events).calls = 1
  /-- All answers are the items of the only request. -/
  answers : ∀ (i : Nat) (answer : Outcome (List α)),
    (run {} events).threads[i]? = some (.done answer) →
      ∃ items, answer = .ok items ∧ results {} events = [.ok items]
  /-- Every thread has got the items after four rounds. -/
  answered : ∀ before rounds, events = before ++ rounds.flatten → 4 ≤ rounds.length →
    (run {} before).Fair rounds → ∀ i < (run {} before).threads.length,
      ∃ items, (run {} events).threads[i]? = some (.done (.ok items))

theorem Calm.singleAttempt {events : List (Event α)} (hcalm : Calm {} events) :
    SingleAttempt events := by
  obtain ⟨stage, hat, hresults, -⟩ := stage_run at_empty hcalm
  refine ⟨?_, ?_, ?_, ?_⟩
  · rw [hat.calls]
    cases stage with
    | unasked => exact Nat.zero_le 1
    | asked _ | answered _ _ | served _ => exact Nat.le_refl 1
  · intro i phase hi hidle
    rw [hat.calls]
    cases stage with
    | unasked => exact absurd (hat.threads i phase hi) hidle
    | asked _ | answered _ _ | served _ => rfl
  · intro i answer hi
    have hadmits := hat.threads i _ hi
    cases stage with
    | unasked => cases hadmits
    | asked thread | answered thread items =>
      rw [Stage.Admits] at hadmits
      split at hadmits
      · cases hadmits
      · exact hadmits.elim
    | served items =>
      rcases hadmits with hasks | hdone
      · exact hasks.elim
      · cases hdone
        exact ⟨items, rfl, hresults.symm⟩
  · rintro before rounds rfl hlength hfair i hi
    obtain ⟨hbefore, hrounds⟩ := hcalm.of_append
    obtain ⟨stage₀, hat₀, -, -⟩ := stage_run at_empty hbefore
    rw [run_append]
    exact answered_of_rounds hat₀ hrounds hfair (Nat.le_add_left_of_le hlength) hi

end Crew

namespace KeyedCrew

variable [DecidableEq κ]

/-- **Single flight.**  At any moment, the slot waits if and only if exactly one thread makes the
latest attempt; an attempt that fails leaves the slot empty, and a superseded one leaves it as it
is.  Without resets and faults there is one attempt, and every thread gets its items.  The same is
true of each slot by key, and between two moments at which the slots are dropped, all threads that
ask for a key come to the same slot. -/
theorem single_flight :
    (∀ events : List (Crew.Event α), (Crew.run {} events).SingleFlight
      ∧ (Crew.Calm {} events → Crew.SingleAttempt events))
    ∧ (∀ (events : List (Event κ α)) (h : Handle κ),
      (run {} events).crew h = Crew.run {} (eventsAt h {} events)
      ∧ ((run {} events).crew h).SingleFlight
      ∧ (Crew.Calm {} (eventsAt h {} events) → Crew.SingleAttempt (eventsAt h {} events)))
    ∧ ∀ (before between : List (Event κ α)) (key : κ), .clear ∉ between →
      (run {} (before ++ between)).locate (.arrive key)
        = some ((run {} before).handle key, .arrive) := by
  have hflight : ∀ events : List (Crew.Event α), (Crew.run {} events).SingleFlight :=
    fun events => (Crew.sound_run Crew.sound_empty events).singleFlight
  refine ⟨fun events => ⟨hflight events, Crew.Calm.singleAttempt⟩, ?_, ?_⟩
  · intro events h
    have hrun : (run {} events).crew h = Crew.run {} (eventsAt h {} events) := crew_run h {} events
    exact ⟨hrun, hrun ▸ hflight _, Crew.Calm.singleAttempt⟩
  · intro before between key hclear
    have hrun : run {} (before ++ between) = (run {} before).run between := List.foldl_append
    rw [hrun, locate, handle_run _ hclear]

/-- Two threads ask for a list, which is fetched once, both if it is the only one and if it is the
list of a key. -/
theorem single_flight_two :
    let turns : List (Crew.Event Nat) := [.turn 0 (.ok [7]), .turn 1 (.ok [8])]
    let rounds := List.replicate 4 turns
    let handle : Handle String := ⟨1, "Sales"⟩
    let asks : List (Event String Nat) := [.arrive "Sales", .turn handle 0 (.ok [7])]
    Crew.Calm {} ([.arrive, .arrive] ++ rounds.flatten)
      ∧ (∃ items, (Crew.run {} ([.arrive, .arrive] ++ rounds.flatten)).threads[1]?
        = some (.done (.ok items)))
      ∧ (run {} ([.clear] ++ asks)).locate (.arrive "Sales") = some (handle, .arrive)
      ∧ Crew.Calm {} (eventsAt handle {} ([.clear] ++ asks))
      ∧ (Crew.run {} (eventsAt handle {} ([.clear] ++ asks))).calls ≤ 1 := by
  intro turns rounds handle asks
  have hresults : Crew.results {} ([.arrive, .arrive] ++ rounds.flatten) = [.ok [7]] := rfl
  have hcalm : Crew.Calm {} ([.arrive, .arrive] ++ rounds.flatten) := by
    refine ⟨by simp [rounds, turns], ?_⟩
    rw [hresults]
    intro result hmem
    exact ⟨[7], List.mem_singleton.1 hmem⟩
  have hevents : eventsAt handle {} ([.clear] ++ asks) = [.arrive, .turn 0 (.ok [7])] := rfl
  have hcalm' : Crew.Calm {} (eventsAt handle {} ([.clear] ++ asks)) := by
    rw [hevents]
    exact ⟨by simp, nofun⟩
  have hround : ∀ i < 2, ∃ result, Crew.Event.turn i result ∈ turns := by
    intro i hi
    match i, hi with
    | 0, _ => exact ⟨_, List.mem_cons_self⟩
    | 1, _ => exact ⟨_, List.mem_cons_of_mem _ List.mem_cons_self⟩
  obtain ⟨hlist, hslots, hkey⟩ := @single_flight Nat String _
  refine ⟨hcalm, ?_, hkey [.clear] asks "Sales" (by simp [asks]), hcalm',
    ((hslots ([.clear] ++ asks) handle).2.2 hcalm').le⟩
  exact ((hlist _).2 hcalm).answered [.arrive, .arrive] rounds rfl (Nat.le_refl 4)
    ⟨hround, hround, hround, hround, trivial⟩ 1 (Nat.le_refl 2)

end KeyedCrew

end Datacube
