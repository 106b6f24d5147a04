import Datacube.Query.Evaluate

/-!
# Cross joins

The cross join of two sets has a tuple for every pair of an element of the one and an element of the
other.  Whatever its operands evaluate to, its size is the product of theirs and the second operand
varies fastest.  As tuples are concatenated, it does not matter how cross joins of three sets are
bracketed, for their values as well as for their faults.

## Main definitions

* `Expr.Crosses` — whether an expression is the cross join of two others.

## Main results

* `Meaning.getElem?_pairs`, `Meaning.pairs_pairs` — the pairs of two lists by their indices, and
  those of three lists.
* `Provider.evaluate_crossjoin` — the value of a cross join.
* `Provider.crossjoin_product` — **cross joins are associative products**.
-/

namespace Datacube

/-! ### Pairs -/

namespace Meaning

/-- The index of a pair: the second component varies fastest. -/
theorem getElem?_pairs {xs ys : List Value} {i j : Nat} (hi : i < xs.length) (hj : j < ys.length) :
    (pairs xs ys)[i * ys.length + j]? = some (.tuple (xs[i].components ++ ys[j].components)) := by
  induction xs generalizing i with
  | nil => exact absurd hi (Nat.not_lt_zero i)
  | cons x xs ih =>
    rw [pairs_cons]
    cases i with
    | zero =>
      rw [Nat.zero_mul, Nat.zero_add, List.getElem?_append_left (by rwa [List.length_map]),
        List.getElem?_map, List.getElem?_eq_getElem hj]
      rfl
    | succ i =>
      -- the pairs of the first element are as many as there are second components
      have hindex : (i + 1) * ys.length + j = ys.length + (i * ys.length + j) := by
        rw [Nat.succ_mul]
        omega
      rw [hindex, List.getElem?_append_right (by rw [List.length_map]; omega), List.length_map,
        Nat.add_sub_cancel_left]
      exact ih (Nat.lt_of_succ_lt_succ hi)

/-- **Pairs of pairs** are the same in both bracketings. -/
theorem pairs_pairs (xs ys zs : List Value) :
    pairs (pairs xs ys) zs = pairs xs (pairs ys zs) := by
  simp only [pairs, List.flatMap_assoc, List.flatMap_map, List.map_flatMap, List.map_map]
  simp only [Function.comp_def, Value.components_tuple, List.append_assoc]

end Meaning

/-! ### Cross joins -/

/-- Whether an expression is the cross join of two others, however it is written. -/
inductive Expr.Crosses (lhs rhs : Expr) : Expr → Prop where
  | call (name : String) (form : CallForm) (h : lowerCase name = "crossjoin") :
    Crosses lhs rhs (.call name form [lhs, rhs])

namespace Provider

variable {m : Type → Type} [Monad m] [MonadExcept Fault m] (p : Provider m)

/-- **The value of a cross join** has the pairs of the elements of its operands. -/
theorem evaluate_crossjoin {lhs rhs e : Expr} (h : Expr.Crosses lhs rhs e) :
    p.evaluate e = Meaning.crossjoin (p.evaluate lhs) (p.evaluate rhs) := by
  obtain ⟨name, form, hname⟩ := h
  have hsymbol : Arithmetic.ofSymbol? "crossjoin" = none := by decide
  have hsign : Meaning.comparison? "crossjoin" = none := rfl
  rw [evaluate, arguments, arguments, arguments, apply]
  simp only [hname, hsymbol, hsign]
  rfl

/-- **Cross joins are associative products.**  In every context, the operands are evaluated one
after the other, and then the cross join is the set of the tuples of their elements: as many as the
product of their numbers, and at the index `i * m + j`, where `m` is the number of elements of the
second operand, the components of the element `i` of the first one followed by those of the element
`j` of the second one.  A cross join of three expressions has the same outcome in both
bracketings. -/
theorem crossjoin_product [LawfulMonad m] {a b d ab bd abd abd' : Expr} (hab : Expr.Crosses a b ab)
    (hbd : Expr.Crosses b d bd) (hleft : Expr.Crosses ab d abd) (hright : Expr.Crosses a bd abd')
    (c : Context) :
    p.evaluate ab c = (do
        let x ← p.evaluate a c
        let y ← p.evaluate b c
        return .set (Meaning.pairs x.elements y.elements))
      ∧ (∀ x y : Value,
        (Meaning.pairs x.elements y.elements).length = x.elements.length * y.elements.length
        ∧ ∀ i j (hi : i < x.elements.length) (hj : j < y.elements.length),
          (Meaning.pairs x.elements y.elements)[i * y.elements.length + j]?
            = some (.tuple (x.elements[i].components ++ y.elements[j].components)))
      ∧ p.evaluate abd c = p.evaluate abd' c := by
  refine ⟨?_, fun x y => ⟨?_, fun i j hi hj => ?_⟩, ?_⟩
  · rw [p.evaluate_crossjoin hab]
    rfl
  · exact Meaning.length_pairs _ _
  · exact Meaning.getElem?_pairs hi hj
  · rw [p.evaluate_crossjoin hleft, p.evaluate_crossjoin hright, p.evaluate_crossjoin hab,
      p.evaluate_crossjoin hbd]
    -- both evaluate the three operands in their order
    simp only [Meaning.crossjoin, bind_assoc, pure_bind, Value.elements_set, Meaning.pairs_pairs]

/-- A provider that lists nothing. -/
def bare (m : Type → Type) [Monad m] : Provider m where
  cube _ := pure none
  dimensions _ := pure []
  hierarchies _ _ := pure []
  levels _ _ := pure []
  members _ _ := pure []
  measures _ := pure []

/-- A set of texts. -/
def textSet (texts : List String) : Expr :=
  .call "\x7b\x7d" .braces (texts.map fun s => .literal (.text s))

/-- A tuple of texts. -/
def textTuple (texts : List String) : Expr :=
  .call "()" .parentheses (texts.map fun s => .literal (.text s))

/-- The cross join of two cities with a single pair has two triples, and with two more texts there
are four tuples in either bracketing. -/
theorem crossjoin_product_cities :
    Expr.Crosses (textSet ["Graz", "Linz"]) (textTuple ["2020", "Q1"])
        (.call "CrossJoin" .function [textSet ["Graz", "Linz"], textTuple ["2020", "Q1"]])
      ∧ (∃ triples, (bare Outcome).evaluate
          (.call "CrossJoin" .function [textSet ["Graz", "Linz"], textTuple ["2020", "Q1"]]) {}
            = .ok (.set triples)
        ∧ triples.length = 2 * 1
        ∧ triples[1 * 1 + 0]? = some (.tuple [.text "Linz", .text "2020", .text "Q1"]))
      ∧ (bare Outcome).evaluate (.call "crossjoin" .function
          [.call "CrossJoin" .function [textSet ["Graz", "Linz"], textTuple ["2020", "Q1"]],
            textSet ["a", "b"]]) {}
        = (bare Outcome).evaluate (.call "CROSSJOIN" .method [textSet ["Graz", "Linz"],
          .call "CrossJoin" .function [textTuple ["2020", "Q1"], textSet ["a", "b"]]]) {} := by
  have hname : lowerCase "CrossJoin" = "crossjoin" := by decide
  have hab : Expr.Crosses (textSet ["Graz", "Linz"]) (textTuple ["2020", "Q1"]) _ :=
    .call "CrossJoin" .function hname
  have hbd : Expr.Crosses (textTuple ["2020", "Q1"]) (textSet ["a", "b"]) _ :=
    .call "CrossJoin" .function hname
  obtain ⟨hvalue, hpairs, hassoc⟩ := (bare Outcome).crossjoin_product hab hbd
    (.call "crossjoin" .function (by decide)) (.call "CROSSJOIN" .method (by decide)) {}
  obtain ⟨hlength, hindex⟩ := hpairs (.set [.text "Graz", .text "Linz"])
    (.tuple [.text "2020", .text "Q1"])
  have hcities : (bare Outcome).evaluate (textSet ["Graz", "Linz"]) {}
      = .ok (.set [.text "Graz", .text "Linz"]) := rfl
  have hdate : (bare Outcome).evaluate (textTuple ["2020", "Q1"]) {}
      = .ok (.tuple [.text "2020", .text "Q1"]) := rfl
  rw [hcities, hdate] at hvalue
  exact ⟨hab, ⟨_, hvalue, hlength, hindex 1 0 (by decide) (by decide)⟩, hassoc⟩

end Provider

end Datacube
