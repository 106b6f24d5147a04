import Datacube.Memory.Cube
import Datacube.Number.Shortest

/-!
# Values of measures

The value of a measure over a list of observations: an aggregate of the values that the
observations have, or the result of a formula over the values of two other measures.

## Main definitions

* `Aggregator.apply` — the aggregate of values.
* `MeasureScope.value` — the value of a measure.
* `valueTerm` — the term that reports a value.
-/

namespace Datacube

/-! ### Aggregates -/

/-- The lesser of two numbers; what is no number does not count. -/
def lesser (x y : Float) : Float :=
  if x.isNaN then y else if y < x then y else x

/-- The greater of two numbers; what is no number does not count. -/
def greater (x y : Float) : Float :=
  if x.isNaN then y else if x < y then y else x

/-- The sum of numbers, from left to right.  Negative zero is neutral, so the sum of a single
number is that number. -/
def total (values : List Float) : Float := values.foldl (· + ·) (-0.0)

/-- Positive infinity. -/
def infinity : Float := Float.ofBits 0x7FF0000000000000

/-- The aggregate of values; none if there is no value. -/
def Aggregator.apply (aggregator : Aggregator) (values : List Float) : Option Float :=
  if values.isEmpty then none
  else some <| match aggregator with
    | sum | calculated | unknown => total values
    | avg => total values / Float.ofNat values.length
    | min => values.foldl lesser infinity
    | max => values.foldl greater (-infinity)
    | count => Float.ofNat values.length

/-! ### Measures -/

/-- The measures that formulas may refer to. -/
structure MeasureScope where
  /-- The measures of the plan; they win over those of the cube. -/
  projected : List Member
  /-- The measures of the cube. -/
  declared : List Member

/-- How deep formulas may refer to each other. -/
def maxFormulaDepth : Nat := 16

namespace MeasureScope

variable (scope : MeasureScope)

/-- The measure with the given unique name. -/
def operand (name : String) : Outcome Member :=
  match (scope.projected ++ scope.declared).find? fun a => a.label.uniqueName == name with
  | some measure => .ok measure
  | none => .error (.unresolvedIdentifier name)

/-- The values that observations have for a measure. -/
def valuesOf (facts : List Fact) (measure : Member) : List Float :=
  facts.filterMap fun fact => fact.value? measure.label.uniqueName

/-- The result of an operation; none if an operand has no value or the result is not finite. -/
def combine (operator : Arithmetic) (x y : Option Float) : Option Float :=
  match x, y with
  | some x, some y =>
    let result := operator.apply x y
    if result.isFinite then some result else none
  | _, _ => none

/-- The value of a measure over observations, whose formulas may go `depth` levels deep. -/
def valueTo (facts : List Fact) : Nat → Member → Outcome (Option Float)
  | depth, measure =>
    match measure.formula? with
    | none => .ok ((measure.aggregator?.getD .sum).apply (valuesOf facts measure))
    | some formula =>
      match depth with
      | 0 => .error (.unsupportedOperation
          ("The formula of " ++ measure.label.uniqueName ++ " is nested too deeply"))
      | depth + 1 => do
        let x ← valueTo facts depth (← scope.operand formula.lhs)
        let y ← valueTo facts depth (← scope.operand formula.rhs)
        return combine formula.operator x y

/-- The value of a measure over observations. -/
def value (facts : List Fact) (measure : Member) : Outcome (Option Float) :=
  scope.valueTo facts maxFormulaDepth measure

end MeasureScope

/-- The term that reports the value of a measure: an integer for a count and a floating-point
number otherwise, and an empty text if there is no value. -/
def valueTerm (measure : Member) : Option Float → Term
  | none => .simple ""
  | some x =>
    .typed (numberText x) (if measure.aggregator? = some .count then xsdInteger else xsdDouble)

end Datacube
