import Datacube.Deferred.Slot

/-!
# Slots by key

A slot for each key, such as the dimensions of each cube.  Clearing drops all slots and makes
new ones.  Who got hold of a slot before that still uses the old one, but nobody else does.

## Main definitions

* `Handle` — who uses a slot has a handle of it.
* `Keyed` — slots by key; `Keyed.handle` — the handle of the slot that a key has now.
* `Keyed.slot`, `Keyed.set` — the slot of a handle.
-/

namespace Datacube

/-- A handle of a slot: its key, and how often the slots had been cleared when it was made. -/
structure Handle (κ : Type) where
  generation : Nat
  key : κ
  deriving DecidableEq, Repr

/-- Slots by key. -/
structure Keyed (κ α : Type) where
  /-- How often the slots have been cleared. -/
  generation : Nat := 0
  /-- The slots that have been used. -/
  slots : List (Handle κ × Slot α) := []

namespace Keyed

variable {κ α : Type} [DecidableEq κ]

/-- The handle of the slot that a key has now. -/
def handle (k : Keyed κ α) (key : κ) : Handle κ := ⟨k.generation, key⟩

/-- The slot of a handle. -/
def slot (k : Keyed κ α) (h : Handle κ) : Slot α := (k.slots.lookup h).getD {}

/-- Puts a slot in the place of the first one of its handle. -/
def replace (h : Handle κ) (s : Slot α) : List (Handle κ × Slot α) → List (Handle κ × Slot α)
  | [] => [(h, s)]
  | (g, t) :: rest => if g = h then (h, s) :: rest else (g, t) :: replace h s rest

/-- The slots with another one for a handle. -/
def set (k : Keyed κ α) (h : Handle κ) (s : Slot α) : Keyed κ α :=
  { k with slots := replace h s k.slots }

/-- Drops all slots. -/
def clear (k : Keyed κ α) : Keyed κ α := { k with generation := k.generation + 1 }

theorem lookup_replace (h g : Handle κ) (s : Slot α) (slots : List (Handle κ × Slot α)) :
    (replace h s slots).lookup g = if g = h then some s else slots.lookup g := by
  induction slots with
  | nil =>
    by_cases e : g = h
    · simp [replace, e]
    · simp [replace, List.lookup_cons, beq_false_of_ne e, e]
  | cons entry rest ih =>
    obtain ⟨f, t⟩ := entry
    by_cases e : f = h
    · subst e
      by_cases e' : g = f
      · simp [replace, e']
      · simp [replace, List.lookup_cons, beq_false_of_ne e', e']
    · by_cases e' : g = f
      · subst e'
        simp [replace, e]
      · simp [replace, List.lookup_cons, beq_false_of_ne e', e, ih]

@[simp] theorem slot_set (k : Keyed κ α) (h : Handle κ) (s : Slot α) :
    (k.set h s).slot h = s := by
  simp [slot, set, lookup_replace]

theorem slot_set_of_ne (k : Keyed κ α) {g h : Handle κ} (e : g ≠ h) (s : Slot α) :
    (k.set h s).slot g = k.slot g := by
  simp [slot, set, lookup_replace, e]

@[simp] theorem handle_set (k : Keyed κ α) (h : Handle κ) (s : Slot α) (key : κ) :
    (k.set h s).handle key = k.handle key := rfl

omit [DecidableEq κ] in
theorem handle_clear_ne (k : Keyed κ α) (key : κ) : k.clear.handle key ≠ k.handle key := by
  simp [handle, clear]

@[simp] theorem slot_clear (k : Keyed κ α) (h : Handle κ) : k.clear.slot h = k.slot h := rfl

end Keyed

end Datacube
