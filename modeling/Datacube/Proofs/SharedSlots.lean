import Datacube.Deferred.KeyedThreads

/-!
# Threads that share slots

At most one thread at a time makes an attempt that the slot waits for, in whatever order the
threads take their turns and whenever the slot is reset.

## Main definitions

* `Phase.Moves` — the steps that a thread may make.
* `Crew.Sound` — what ties a slot to the attempts of the threads.
* `KeyedCrew.eventsAt` — what happens at one of several slots.

## Main results

* `Crew.sound_step`, `Crew.sound_run` — **at most one attempt is the latest one**.
* `KeyedCrew.crew_run` — what happens at a slot depends on the events there alone.
* `KeyedCrew.handle_run` — a key has one slot as long as nobody drops the slots.
-/

namespace Datacube

variable {α κ : Type}

/-! ### Steps of threads -/

namespace Phase

/-- Whether a thread asks without making an attempt of its own. -/
def Asks : Phase α → Prop
  | .idle | .waiting _ => True
  | .fetching _ | .fetched .. | .done _ => False

/-- The steps that a thread may make at a slot, with the slot and the thread after each of them.
A request is answered by `result`. -/
inductive Moves (result : Outcome (List α)) (s : Slot α) : Phase α → Slot α → Phase α → Prop
  /-- It takes the items that the slot holds. -/
  | take {phase : Phase α} {items : List α} : phase.Asks → s.status = .populated items →
    Moves result s phase s (.done (.ok items))
  /-- It waits for the end of the attempt that is under way. -/
  | wait {phase : Phase α} : phase.Asks → s.status = .populating →
    Moves result s phase s (.waiting s.attempt)
  /-- It begins an attempt. -/
  | start {phase : Phase α} : phase.Asks → s.status = .empty →
    Moves result s phase s.start (.fetching s.start.attempt)
  /-- It takes over the fault of the attempt that it has waited for. -/
  | fail {attempt : Nat} {e : Fault} : s.failure = some (attempt, e) →
    Moves result s (.waiting attempt) s (.done (.error e))
  /-- Its request is answered. -/
  | answer {attempt : Nat} : Moves result s (.fetching attempt) s (.fetched attempt result)
  /-- It ends its attempt. -/
  | finish {attempt : Nat} {answer : Outcome (List α)} :
    Moves result s (.fetched attempt answer) (s.finish attempt answer) (.done answer)
  /-- It has got its answer. -/
  | stay {answer : Outcome (List α)} : Moves result s (.done answer) s (.done answer)

variable {result : Outcome (List α)} {s t : Slot α} {phase next : Phase α}

theorem moves_look (h : phase.Asks) : Moves result s phase (look s).1 (look s).2 := by
  rw [look]
  cases hs : s.status with
  | empty => exact .start h hs
  | populating => exact .wait h hs
  | populated items => exact .take h hs

/-- **A thread makes one of these steps.** -/
theorem moves_advance (result : Outcome (List α)) (s : Slot α) (phase : Phase α) :
    Moves result s phase (phase.advance result s).1 (phase.advance result s).2 := by
  cases phase with
  | idle => exact moves_look trivial
  | waiting attempt =>
    rw [advance, wake]
    split
    · rename_i hunder
      rw [isUnderWay] at hunder
      split at hunder
      · rename_i hs
        obtain rfl := eq_of_beq hunder
        exact .wait trivial hs
      · cases hunder
    · split
      · rename_i failed e hfailure
        split
        · rename_i hfailed
          exact .fail (hfailed ▸ hfailure)
        · exact moves_look trivial
      · exact moves_look trivial
  | fetching attempt => exact .answer
  | fetched attempt answer => exact .finish
  | done answer => exact .stay

theorem Asks.attempt? (h : phase.Asks) : phase.attempt? = none := by
  cases phase with
  | idle | waiting _ => rfl
  | fetching _ | fetched _ _ | done _ => exact h.elim

theorem Asks.not_isFetching (h : phase.Asks) : phase.isFetching = false := by
  cases phase with
  | idle | waiting _ => rfl
  | fetching _ | fetched _ _ | done _ => exact h.elim

end Phase

/-! ### Attempts -/

namespace Crew

/-- The attempt that the thread with index `i` is making. -/
def attempt? (c : Crew α) (i : Nat) : Option Nat := c.threads[i]?.bind Phase.attempt?

/-- What ties a slot to the attempts of the threads. -/
structure Sound (c : Crew α) : Prop where
  /-- No attempt is newer than the latest one. -/
  le : ∀ i attempt, c.attempt? i = some attempt → attempt ≤ c.slot.attempt
  /-- The latest attempt is made by one thread at most. -/
  unique : ∀ i j, c.attempt? i = some c.slot.attempt → c.attempt? j = some c.slot.attempt → i = j
  /-- The slot waits for the latest attempt as long as a thread makes it. -/
  populating : c.slot.status = .populating ↔ ∃ i, c.attempt? i = some c.slot.attempt

variable {c : Crew α}

/-- The next step of a thread, as a step of all of them. -/
theorem turn_of_moves {i : Nat} {phase : Phase α} (h : c.threads[i]? = some phase)
    (result : Outcome (List α)) : ∃ slot next, phase.Moves result c.slot slot next
      ∧ c.turn i result = ⟨slot, c.threads.set i next,
        if next.isFetching then c.calls + 1 else c.calls⟩ := by
  refine ⟨_, _, phase.moves_advance result c.slot, ?_⟩
  rw [turn, h]

theorem turn_of_none {i : Nat} (h : c.threads[i]? = none) (result : Outcome (List α)) :
    c.turn i result = c := by
  rw [turn, h]

theorem length_turn (i : Nat) (result : Outcome (List α)) :
    (c.turn i result).threads.length = c.threads.length := by
  rw [turn]
  split
  · rfl
  · exact List.length_set

/-- A thread makes no step when it is the turn of another one. -/
theorem threads_turn_of_ne {i j : Nat} (hne : i ≠ j) (result : Outcome (List α)) :
    (c.turn i result).threads[j]? = c.threads[j]? := by
  rw [turn]
  split
  · rfl
  · exact List.getElem?_set_ne hne

/-- The threads after one of them has changed. -/
theorem threads_set {i j : Nat} {phase next : Phase α} (h : c.threads[i]? = some phase) :
    (c.threads.set i next)[j]? = if i = j then some next else c.threads[j]? := by
  obtain ⟨hi, -⟩ := List.getElem?_eq_some_iff.1 h
  rw [List.getElem?_set]
  simp [hi]

theorem attempt?_set {i j : Nat} {phase next : Phase α} (h : c.threads[i]? = some phase)
    (slot : Slot α) (calls : Nat) :
    (⟨slot, c.threads.set i next, calls⟩ : Crew α).attempt? j
      = if i = j then next.attempt? else c.attempt? j := by
  rw [attempt?, threads_set h]
  split <;> rfl

theorem attempt?_of_thread {i : Nat} {phase : Phase α} (h : c.threads[i]? = some phase) :
    c.attempt? i = phase.attempt? := by
  rw [attempt?, h]
  rfl

/-- A thread that arrives makes no attempt. -/
theorem attempt?_arrive (j : Nat) : (c.step .arrive).attempt? j = c.attempt? j := by
  change (c.threads ++ [.idle])[j]?.bind Phase.attempt? = c.threads[j]?.bind Phase.attempt?
  rw [List.getElem?_append]
  split
  · rfl
  · rename_i hj
    rw [List.getElem?_eq_none (Nat.le_of_not_lt hj)]
    rcases Nat.eq_zero_or_pos (j - c.threads.length) with h | h
    · rw [h]
      rfl
    · rw [List.getElem?_eq_none (Nat.succ_le_of_lt h)]

/-- A change of one thread and the slot that leaves all attempts as they are. -/
private theorem Sound.of_same (hc : c.Sound) {c' : Crew α}
    (hattempt : ∀ j, c'.attempt? j = c.attempt? j) (hslot : c'.slot = c.slot) : c'.Sound := by
  refine ⟨?_, ?_, ?_⟩
  · simpa only [hattempt, hslot] using hc.le
  · simpa only [hattempt, hslot] using hc.unique
  · simpa only [hattempt, hslot] using hc.populating

/-- **Every step of a thread keeps the slot sound.** -/
private theorem Sound.moves (hc : c.Sound) {i : Nat} {phase next : Phase α} {slot : Slot α}
    (h : c.threads[i]? = some phase) {result : Outcome (List α)}
    (hmoves : phase.Moves result c.slot slot next) (calls : Nat) :
    (⟨slot, c.threads.set i next, calls⟩ : Crew α).Sound := by
  have hi := attempt?_of_thread h
  -- in all steps but the beginning and the end of an attempt, the thread goes on with its attempt
  have hsame : slot = c.slot → next.attempt? = phase.attempt? →
      (⟨slot, c.threads.set i next, calls⟩ : Crew α).Sound := by
    intro hslot hnext
    refine hc.of_same (fun j => ?_) hslot
    rw [attempt?_set h]
    split
    · rename_i hij
      rw [hnext, ← hij, hi]
    · rfl
  cases hmoves with
  | take hasks _ => exact hsame rfl hasks.attempt?.symm
  | wait hasks _ => exact hsame rfl hasks.attempt?.symm
  | fail _ => exact hsame rfl rfl
  | answer => exact hsame rfl rfl
  | stay => exact hsame rfl rfl
  | start hasks hempty =>
    -- the new attempt is newer than all others
    have hnew : ∀ j, (⟨c.slot.start, c.threads.set i (.fetching c.slot.start.attempt), calls⟩ :
        Crew α).attempt? j = some c.slot.start.attempt ↔ i = j := by
      intro j
      rw [attempt?_set h]
      split
      · rename_i hij
        exact iff_of_true rfl hij
      · rename_i hij
        refine iff_of_false (fun hj => ?_) hij
        exact absurd (hc.le j _ hj) (Nat.not_succ_le_self _)
    refine ⟨?_, ?_, ?_⟩
    · intro j attempt hj
      rw [attempt?_set h] at hj
      split at hj
      · cases hj
        exact Nat.le_refl _
      · exact Nat.le_succ_of_le (hc.le j attempt hj)
    · intro j k hj hk
      rw [← (hnew j).1 hj, ← (hnew k).1 hk]
    · exact iff_of_true rfl ⟨i, (hnew i).2 rfl⟩
  | @finish attempt answer =>
    have hattempt : ∀ j, (⟨c.slot.finish attempt answer, c.threads.set i (.done answer), calls⟩ :
        Crew α).attempt? j = if i = j then none else c.attempt? j := fun j => attempt?_set h _ _
    have hsub : ∀ j k, (if i = j then none else c.attempt? j) = some k → c.attempt? j = some k := by
      intro j k hj
      split at hj
      · cases hj
      · exact hj
    refine ⟨?_, ?_, ?_⟩
    · intro j k hj
      rw [hattempt] at hj
      rw [Slot.attempt_finish]
      exact hc.le j k (hsub j k hj)
    · intro j k hj hk
      rw [hattempt, Slot.attempt_finish] at hj hk
      exact hc.unique j k (hsub j _ hj) (hsub k _ hk)
    · by_cases hlatest : c.slot.attempt = attempt
      -- nobody makes the latest attempt any more
      · subst hlatest
        refine iff_of_false ?_ ?_
        · cases answer <;> simp
        · rintro ⟨j, hj⟩
          rw [hattempt, Slot.attempt_finish] at hj
          have hj' := hsub j _ hj
          obtain rfl := hc.unique i j hi hj'
          rw [if_pos rfl] at hj
          cases hj
      -- the attempt was superseded, so that the slot stays as it is
      · rw [Slot.finish_of_superseded hlatest]
        refine hc.populating.trans (exists_congr fun j => ?_)
        rw [attempt?_set h]
        split
        · rename_i hij
          rw [← hij, hi]
          refine iff_of_false (fun hk => ?_) nofun
          exact hlatest (Option.some.inj hk).symm
        · rfl

/-- Threads do not go away. -/
theorem length_step (c : Crew α) (event : Event α) :
    c.threads.length ≤ (c.step event).threads.length := by
  cases event with
  | arrive => exact (List.length_append ▸ Nat.le_add_right _ _)
  | reset | get => exact Nat.le_refl _
  | turn i result => exact Nat.le_of_eq (length_turn i result).symm

/-- **Every event keeps the slot sound.** -/
theorem sound_step (hc : c.Sound) (event : Event α) : (c.step event).Sound := by
  cases event with
  | arrive => exact hc.of_same attempt?_arrive rfl
  | get => exact hc
  | turn i result =>
    change (c.turn i result).Sound
    cases h : c.threads[i]? with
    | none =>
      rw [turn_of_none h]
      exact hc
    | some phase =>
      obtain ⟨slot, next, hmoves, hturn⟩ := turn_of_moves h result
      rw [hturn]
      exact hc.moves h hmoves _
  | reset =>
    -- every attempt under way is older than the one for which a reset counts
    have hnone : ∀ i, c.attempt? i ≠ some (c.slot.attempt + 1) := by
      intro i hi
      exact absurd (hc.le i _ hi) (Nat.not_succ_le_self _)
    refine ⟨?_, ?_, ?_⟩
    · intro i attempt hi
      exact Nat.le_succ_of_le (hc.le i attempt hi)
    · intro i j hi
      exact absurd hi (hnone i)
    · refine iff_of_false nofun ?_
      rintro ⟨i, hi⟩
      exact hnone i hi

theorem sound_empty : ({} : Crew α).Sound :=
  ⟨nofun, nofun, iff_of_false nofun fun ⟨_, h⟩ => nomatch h⟩

theorem run_append (c : Crew α) (events more : List (Event α)) :
    c.run (events ++ more) = (c.run events).run more := List.foldl_append

/-- **At most one attempt is the latest one**, after any events. -/
theorem sound_run (hc : c.Sound) (events : List (Event α)) : (c.run events).Sound := by
  induction events generalizing c with
  | nil => exact hc
  | cons event events ih => exact ih (sound_step hc event)

end Crew

/-! ### Slots by key -/

namespace KeyedCrew

variable [DecidableEq κ]

/-- What happens at the slot with a handle in the course of events. -/
def eventsAt (h : Handle κ) (k : KeyedCrew κ α) : List (Event κ α) → List (Crew.Event α)
  | [] => []
  | event :: events =>
    match k.locate event with
    | some (g, e) => if h = g then e :: eventsAt h (k.step event) events
      else eventsAt h (k.step event) events
    | none => eventsAt h (k.step event) events

/-- **What happens at a slot depends on the events there alone.** -/
theorem crew_run (h : Handle κ) (k : KeyedCrew κ α) (events : List (Event κ α)) :
    (k.run events).crew h = (k.crew h).run (k.eventsAt h events) := by
  induction events generalizing k with
  | nil => rfl
  | cons event events ih =>
    refine (ih (k.step event)).trans ?_
    rw [eventsAt, step]
    cases k.locate event with
    | none => rfl
    | some place =>
      obtain ⟨g, e⟩ := place
      by_cases hg : h = g
      · simp only [if_pos hg]
        rfl
      · simp only [if_neg hg]

/-- Nobody but the one who drops the slots changes which slot a key has. -/
theorem generation_step {k : KeyedCrew κ α} {event : Event κ α} (h : event ≠ .clear) :
    (k.step event).generation = k.generation := by
  cases event with
  | arrive | turn | reset | get => rfl
  | clear => exact absurd rfl h

/-- **A key has one slot** as long as nobody drops the slots. -/
theorem handle_run (k : KeyedCrew κ α) {events : List (Event κ α)} (h : .clear ∉ events)
    (key : κ) : (k.run events).handle key = k.handle key := by
  induction events generalizing k with
  | nil => rfl
  | cons event events ih =>
    refine (ih (k.step event) fun hmem => h (List.mem_cons_of_mem _ hmem)).trans ?_
    have hne : event ≠ .clear := fun e => h (e ▸ List.mem_cons_self)
    rw [handle, generation_step hne, handle]

end KeyedCrew

end Datacube
