import Datacube.Deferred.KeyedThreads
import Datacube.Inquiry
import Mathlib.Logic.Function.Basic

/-!
# Stores that are shared

Several threads ask a store for its collections while others reset it.  A call looks up the slot
of its answer and then behaves like any thread at this slot.  A reset discards one collection after
another, so that calls and other resets may come in between: a collection with a single slot has it
reset, the others drop all their slots.

The engine does not appear here.  What a request would be answered is part of the event in which
it is answered, and may be different every time.

## Main definitions

* `Listing.discarding` — how a collection is discarded.
* `SharedStore` — threads that share a store.
* `SharedStore.Event`, `SharedStore.step`, `SharedStore.run` — what may happen to them.
-/

namespace Datacube

namespace Listing

/-- The collections in the order in which a reset discards them. -/
def all : List Listing :=
  [.databases, .catalogs, .schemas, .cubes, .dimensions, .measures, .hierarchies, .levels, .members]

/-- What happens to a collection that is discarded. -/
def discarding : (l : Listing) → KeyedCrew l.Key l.Item → KeyedCrew.Event l.Key l.Item
  | .databases, k | .catalogs, k | .schemas, k | .cubes, k => .reset (k.handle ())
  | .dimensions, _ | .measures, _ | .hierarchies, _ | .levels, _ | .members, _ => .clear

end Listing

/-- Threads that share a store. -/
structure SharedStore where
  /-- The threads at the slots of each collection. -/
  slots : (l : Listing) → KeyedCrew l.Key l.Item := fun _ => {}
  /-- For each reset that was begun, the collections that it has yet to discard. -/
  resets : List (List Listing) := []

namespace SharedStore

/-- What may happen to threads that share a store. -/
inductive Event where
  /-- One more thread asks for something. -/
  | call (q : Inquiry)
  /-- A thread at a slot, given by its index, makes its next step; a request is answered by
  `result`. -/
  | turn (l : Listing) (handle : Handle l.Key) (thread : Nat) (result : Outcome (List l.Item))
  /-- Somebody begins to reset the store. -/
  | beginReset
  /-- A reset, given by its index, discards the next collection. -/
  | discard (reset : Nat)

/-- The store after an event at one of its collections. -/
def act (c : SharedStore) (l : Listing) (event : KeyedCrew.Event l.Key l.Item) : SharedStore :=
  { c with slots := Function.update c.slots l ((c.slots l).step event) }

/-- The store after an event. -/
def step (c : SharedStore) : Event → SharedStore
  | .call q => c.act q.listing (.arrive q.key)
  | .turn l h i result => c.act l (.turn h i result)
  | .beginReset => { c with resets := c.resets ++ [Listing.all] }
  | .discard r =>
    match c.resets[r]? with
    | some (l :: rest) =>
      { c.act l (l.discarding (c.slots l)) with resets := c.resets.set r rest }
    | _ => c

/-- The store after several events. -/
def run (c : SharedStore) (events : List Event) : SharedStore := events.foldl step c

/-- The threads at a slot. -/
def crew (c : SharedStore) (l : Listing) (h : Handle l.Key) : Crew l.Item := (c.slots l).crew h

end SharedStore

end Datacube
