import Datacube.Deferred.Slot

/-!
# Slots that are shared

Several threads ask for the items of one slot.  At most one of them fetches the items; those
that come while it does so wait for the end of its attempt.  A thread that wakes up takes over
the fault of the attempt that it waited for, and looks at the slot again otherwise.

Everything but the fetching itself happens while a lock is held, so a run is a sequence of such
events: a thread begins to ask, a thread makes its next step, or somebody resets the slot or reads
what it holds.  A thread that fetches makes two steps, since a request may be answered long before
the slot sees the end of the attempt.

## Main definitions

* `Phase` — where a thread stands.
* `Phase.advance` — the next step of a thread.
* `Crew` — threads that share a slot.
* `Crew.Event`, `Crew.step`, `Crew.run` — what may happen to them.
-/

namespace Datacube

/-- Where a thread stands that asks for the items of a slot. -/
inductive Phase (α : Type) where
  /-- Before the first look at the slot. -/
  | idle
  /-- Waiting for the end of an attempt. -/
  | waiting (attempt : Nat)
  /-- At the beginning of an attempt. -/
  | fetching (attempt : Nat)
  /-- With the result of an attempt that the slot has not seen yet. -/
  | fetched (attempt : Nat) (result : Outcome (List α))
  /-- With the answer. -/
  | done (answer : Outcome (List α))
  deriving DecidableEq

namespace Phase

variable {α : Type}

/-- A thread looks at the slot: it takes the items, or waits, or begins an attempt. -/
def look (s : Slot α) : Slot α × Phase α :=
  match s.status with
  | .populated items => (s, .done (.ok items))
  | .populating => (s, .waiting s.attempt)
  | .empty => (s.start, .fetching s.start.attempt)

/-- Whether an attempt is still under way. -/
def isUnderWay (s : Slot α) (attempt : Nat) : Bool :=
  match s.status with
  | .populating => s.attempt == attempt
  | _ => false

/-- The step of a thread that waits for the end of an attempt. -/
def wake (s : Slot α) (attempt : Nat) : Slot α × Phase α :=
  if isUnderWay s attempt then (s, .waiting attempt)
  else match s.failure with
    | some (failed, e) => if failed = attempt then (s, .done (.error e)) else look s
    | none => look s

/-- The next step of a thread, where `result` is what a request would be answered now. -/
def advance (result : Outcome (List α)) (s : Slot α) : Phase α → Slot α × Phase α
  | .idle => look s
  | .waiting attempt => wake s attempt
  | .fetching attempt => (s, .fetched attempt result)
  | .fetched attempt answer => (s.finish attempt answer, .done answer)
  | .done answer => (s, .done answer)

/-- The attempt that a thread is making. -/
def attempt? : Phase α → Option Nat
  | .fetching attempt | .fetched attempt _ => some attempt
  | _ => none

/-- Whether a thread is at the beginning of an attempt. -/
def isFetching : Phase α → Bool
  | .fetching _ => true
  | _ => false

/-- The answer that a thread has got. -/
def answer? : Phase α → Option (Outcome (List α))
  | .done answer => some answer
  | _ => none

end Phase

/-- Threads that share a slot. -/
structure Crew (α : Type) where
  slot : Slot α := {}
  threads : List (Phase α) := []
  /-- How many attempts were begun. -/
  calls : Nat := 0

namespace Crew

variable {α : Type}

/-- What may happen to threads that share a slot. -/
inductive Event (α : Type) where
  /-- One more thread asks for the items. -/
  | arrive
  /-- The thread with the given index makes its next step; a request is answered by `result`. -/
  | turn (thread : Nat) (result : Outcome (List α))
  /-- Somebody resets the slot. -/
  | reset
  /-- Somebody reads the items that the slot holds, if any. -/
  | get

/-- The threads after the next step of the one with index `i`. -/
def turn (c : Crew α) (i : Nat) (result : Outcome (List α)) : Crew α :=
  match c.threads[i]? with
  | none => c
  | some phase =>
    let (slot, next) := phase.advance result c.slot
    { slot
      threads := c.threads.set i next
      calls := if next.isFetching then c.calls + 1 else c.calls }

/-- The threads after an event. -/
def step (c : Crew α) : Event α → Crew α
  | .arrive => { c with threads := c.threads ++ [.idle] }
  | .turn i result => c.turn i result
  | .reset => { c with slot := c.slot.reset }
  | .get => c

/-- The threads after several events. -/
def run (c : Crew α) (events : List (Event α)) : Crew α := events.foldl step c

/-- The events in which `n` threads ask for the items and then take their turns in order, three
times, while every request is answered by `result`.  That is enough for all of them to get an
answer. -/
def fairEvents (n : Nat) (result : Outcome (List α)) : List (Event α) :=
  let turns := (List.range n).map fun i => Event.turn i result
  List.replicate n .arrive ++ turns ++ turns ++ turns

end Crew

end Datacube
