import Datacube.Fault

/-!
# Slots

A slot holds a list that is fetched when it is first needed.  Fetching happens in two steps,
its beginning and its end, and other things may happen in between: others may come to wait for
the end, and a reset may supersede the attempt.  Attempts are numbered.  The end of an attempt
that was superseded leaves the slot as it is.

## Main definitions

* `Slot` — a slot.
* `Slot.start`, `finish`, `abandon`, `reset` — what happens to it.
* `Slot.Step`, `Slot.run` — sequences of uses, where the fetching itself may use the slot.
-/

namespace Datacube

/-- What a slot holds. -/
inductive Slot.Status (α : Type) where
  | empty
  /-- An attempt to fetch the items is under way. -/
  | populating
  | populated (items : List α)
  deriving DecidableEq, Repr

/-- A list that is fetched when it is first needed. -/
structure Slot (α : Type) where
  status : Slot.Status α := .empty
  /-- The number of the latest attempt; a reset counts as one. -/
  attempt : Nat := 0
  /-- The latest attempt that failed, with its fault. -/
  failure : Option (Nat × Fault) := none
  deriving DecidableEq, Repr

instance {α : Type} : Inhabited (Slot α) := ⟨{}⟩

namespace Slot

variable {α : Type}

/-! ### Transitions -/

/-- The slot at the beginning of an attempt. -/
def start (s : Slot α) : Slot α := { s with status := .populating, attempt := s.attempt + 1 }

/-- The slot at the end of an attempt with the given result. -/
def finish (s : Slot α) (attempt : Nat) (result : Outcome (List α)) : Slot α :=
  if s.attempt ≠ attempt then s
  else match result with
    | .ok items => { s with status := .populated items, failure := none }
    | .error e => { s with status := .empty, failure := some (attempt, e) }

/-- The slot at the end of an attempt that has no result at all. -/
def abandon (s : Slot α) (attempt : Nat) : Slot α :=
  if s.attempt ≠ attempt then s else { s with status := .empty }

/-- The slot without its items.  An attempt that is under way is superseded. -/
def reset (s : Slot α) : Slot α :=
  { status := .empty, attempt := s.attempt + 1, failure := none }

/-- The items, if there are any. -/
def items? (s : Slot α) : Option (List α) :=
  match s.status with
  | .populated items => some items
  | _ => none

theorem finish_of_superseded {s : Slot α} {attempt : Nat} (h : s.attempt ≠ attempt)
    (result : Outcome (List α)) : s.finish attempt result = s := if_pos h

@[simp] theorem finish_ok (s : Slot α) (items : List α) :
    s.finish s.attempt (.ok items) = { s with status := .populated items, failure := none } := by
  simp [finish]

@[simp] theorem finish_error (s : Slot α) (e : Fault) :
    s.finish s.attempt (.error e) = { s with status := .empty, failure := some (s.attempt, e) } := by
  simp [finish]

@[simp] theorem attempt_finish (s : Slot α) (attempt : Nat) (result : Outcome (List α)) :
    (s.finish attempt result).attempt = s.attempt := by
  unfold finish
  split
  · rfl
  · cases result <;> rfl

@[simp] theorem items?_start (s : Slot α) : s.start.items? = none := rfl

@[simp] theorem items?_reset (s : Slot α) : s.reset.items? = none := rfl

/-! ### Sequences of uses -/

/-- How an attempt ends. -/
inductive Ending (α : Type) where
  | returns (items : List α)
  | fails (fault : Fault)
  /-- The attempt is broken off. -/
  | aborts

/-- A use of a slot. -/
inductive Step (α : Type) where
  /-- Asks for the items.  An attempt to fetch them makes the uses `during` before it ends. -/
  | populate (during : List (Step α)) (ending : Ending α)
  | items
  | isPopulated
  | reset

/-- How a request for the items ends. -/
inductive Result (α : Type) where
  | items (items : List α)
  | fault (fault : Fault)
  | aborted
  /-- The attempt under way is the one that asks, so waiting for it has no end. -/
  | blocked

/-- The answer to a use. -/
inductive Answer (α : Type) where
  /-- Whether there was an attempt, the answers to the uses during it, and the result. -/
  | populated (called : Bool) (during : List (Answer α)) (result : Result α)
  | items (items : Option (List α))
  | isPopulated (answer : Bool)
  | reset

/-- The end of the attempt with the given number: the slot after it, and its result. -/
def conclude (s : Slot α) (attempt : Nat) : Ending α → Slot α × Result α
  | .returns items => (s.finish attempt (.ok items), .items items)
  | .fails e => (s.finish attempt (.error e), .fault e)
  | .aborts => (s.abandon attempt, .aborted)

mutual

/-- The slot after a use, and the answer. -/
def run (s : Slot α) : Step α → Slot α × Answer α
  | .populate during ending =>
    match s.status with
    | .populated items => (s, .populated false [] (.items items))
    | .populating => (s, .populated false [] .blocked)
    | .empty =>
      let (t, answers) := runAll s.start during
      let (t, result) := t.conclude s.start.attempt ending
      (t, .populated true answers result)
  | .items => (s, .items s.items?)
  | .isPopulated => (s, .isPopulated s.items?.isSome)
  | .reset => (s.reset, .reset)

/-- The slot after several uses, and the answers. -/
def runAll (s : Slot α) : List (Step α) → Slot α × List (Answer α)
  | [] => (s, [])
  | step :: steps =>
    let (t, answer) := run s step
    let (t, answers) := runAll t steps
    (t, answer :: answers)

end

end Slot

end Datacube
