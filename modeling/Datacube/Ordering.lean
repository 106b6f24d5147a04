/-!
# Sorting

Dimensions, levels and members are listed by their ordinals and depths, axes by their ordinals,
and the rows of a result by their keys.  Sorting is stable: elements of which either may come
first stay in the order in which they were.

## Main definitions

* `sortBy` — the elements of a list in order.
-/

namespace Datacube

variable {α : Type}

/-- The list with one more element, in front of the first one that may come after it. -/
def insertBy (le : α → α → Bool) (a : α) : List α → List α
  | [] => [a]
  | b :: bs => if le a b then a :: b :: bs else b :: insertBy le a bs

/-- The elements of a list in the order `le`. -/
def sortBy (le : α → α → Bool) : List α → List α
  | [] => []
  | a :: as => insertBy le a (sortBy le as)

@[simp] theorem mem_insertBy {le : α → α → Bool} {a x : α} {as : List α} :
    x ∈ insertBy le a as ↔ x = a ∨ x ∈ as := by
  induction as with
  | nil => simp [insertBy]
  | cons b bs ih =>
    rw [insertBy]
    split
    · simp
    · simp only [List.mem_cons, ih]
      exact or_left_comm

@[simp] theorem mem_sortBy {le : α → α → Bool} {x : α} {as : List α} :
    x ∈ sortBy le as ↔ x ∈ as := by
  induction as with
  | nil => rfl
  | cons a as ih => rw [sortBy, mem_insertBy, ih, List.mem_cons]

/-- A list that is in order already stays as it is. -/
theorem sortBy_of_pairwise {le : α → α → Bool} {as : List α}
    (h : as.Pairwise fun a b => le a b = true) : sortBy le as = as := by
  induction as with
  | nil => rfl
  | cons a as ih =>
    obtain ⟨ha, has⟩ := List.pairwise_cons.1 h
    rw [sortBy, ih has]
    cases as with
    | nil => rfl
    | cons b bs => exact if_pos (ha b List.mem_cons_self)

theorem insertBy_map {β : Type} {le : α → α → Bool} {le' : β → β → Bool} {f : α → β}
    (h : ∀ a b, le' (f a) (f b) = le a b) (a : α) (as : List α) :
    insertBy le' (f a) (as.map f) = (insertBy le a as).map f := by
  induction as with
  | nil => rfl
  | cons b bs ih =>
    rw [List.map_cons, insertBy, insertBy, h]
    split
    · rfl
    · rw [ih, List.map_cons]

/-- What does not change the order may be done before or after sorting. -/
theorem sortBy_map {β : Type} {le : α → α → Bool} {le' : β → β → Bool} {f : α → β}
    (h : ∀ a b, le' (f a) (f b) = le a b) (as : List α) :
    sortBy le' (as.map f) = (sortBy le as).map f := by
  induction as with
  | nil => rfl
  | cons a as ih => rw [List.map_cons, sortBy, sortBy, ih, insertBy_map h]

end Datacube
