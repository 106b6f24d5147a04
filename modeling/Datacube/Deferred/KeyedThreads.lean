import Datacube.Deferred.Keyed
import Datacube.Deferred.Threads

/-!
# Slots by key that are shared

Several threads use slots by key.  A thread that begins to ask gets the handle of the slot that
its key has at that moment, and uses this slot to the end, even if all slots are dropped in the
meantime.

## Main definitions

* `KeyedCrew` — threads that share slots by key.
* `KeyedCrew.Event`, `KeyedCrew.step`, `KeyedCrew.run` — what may happen to them.
-/

namespace Datacube

/-- Threads that share slots by key. -/
structure KeyedCrew (κ α : Type) where
  /-- How often the slots have been cleared. -/
  generation : Nat := 0
  /-- The threads at each slot. -/
  crew : Handle κ → Crew α := fun _ => {}

namespace KeyedCrew

variable {κ α : Type} [DecidableEq κ]

/-- The handle of the slot that a key has now. -/
def handle (k : KeyedCrew κ α) (key : κ) : Handle κ := ⟨k.generation, key⟩

/-- What may happen to threads that share slots by key. -/
inductive Event (κ α : Type) where
  /-- One more thread asks for the items of a key. -/
  | arrive (key : κ)
  /-- A thread at a slot, given by its index, makes its next step; a request is answered by
  `result`. -/
  | turn (handle : Handle κ) (thread : Nat) (result : Outcome (List α))
  /-- Somebody resets a slot. -/
  | reset (handle : Handle κ)
  /-- Somebody reads the items that a slot holds, if any. -/
  | get (handle : Handle κ)
  /-- Somebody drops all slots. -/
  | clear

/-- The slot at which something happens, and what happens there. -/
def locate (k : KeyedCrew κ α) : Event κ α → Option (Handle κ × Crew.Event α)
  | .arrive key => some (k.handle key, .arrive)
  | .turn h i result => some (h, .turn i result)
  | .reset h => some (h, .reset)
  | .get h => some (h, .get)
  | .clear => none

/-- The threads after an event. -/
def step (k : KeyedCrew κ α) (event : Event κ α) : KeyedCrew κ α :=
  match k.locate event with
  | some (h, e) => { k with crew := fun g => if g = h then (k.crew g).step e else k.crew g }
  | none => { k with generation := k.generation + 1 }

/-- The threads after several events. -/
def run (k : KeyedCrew κ α) (events : List (Event κ α)) : KeyedCrew κ α := events.foldl step k

end KeyedCrew

end Datacube
