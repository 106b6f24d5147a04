import Datacube.Fault
import Datacube.Text.Letter
import Datacube.Text.Split
import Datacube.UniqueName.Uri

/-!
# Measures

A measure is aggregated over the observations of a cell, or it is calculated from two other
measures by a formula.

## Main definitions

* `Aggregator` — how the values of a measure are combined.
* `Arithmetic` — the operators of formulas; `Arithmetic.apply` — their meaning.
* `Formula` — a formula, with its text.
* `MeasureInfo` — what a member that is a measure has besides other members.
-/

namespace Datacube

/-! ### Aggregators -/

/-- How the values of a measure are combined. -/
inductive Aggregator where
  | sum
  | avg
  | min
  | max
  | count
  /-- The value is calculated from other measures. -/
  | calculated
  | unknown
  deriving DecidableEq, Repr, Inhabited

namespace Aggregator

/-- The aggregator with the given name or code.  A URI names the aggregator in its trailing
part. -/
def parse (s : String) : Aggregator :=
  match upperCase (String.ofList (afterLastSeparator (trim s).toList)) with
  | "1" | "SUM" => sum
  | "2" | "COUNT" => count
  | "3" | "MIN" => min
  | "4" | "MAX" => max
  | "5" | "AVG" | "AVERAGE" => avg
  | "127" | "CALCULATED" => calculated
  | _ => unknown

/-- The name of an aggregator. -/
def text : Aggregator → String
  | sum => "SUM"
  | avg => "AVG"
  | min => "MIN"
  | max => "MAX"
  | count => "COUNT"
  | calculated => "CALCULATED"
  | unknown => "UNKNOWN"

end Aggregator

/-! ### Formulas -/

/-- A binary arithmetic operator. -/
inductive Arithmetic where
  | add
  | subtract
  | multiply
  | divide
  deriving DecidableEq, Repr

namespace Arithmetic

/-- The operators, in the order in which a formula is searched for them. -/
def all : List Arithmetic := [add, subtract, multiply, divide]

/-- The sign of an operator. -/
def symbol : Arithmetic → String
  | add => "+"
  | subtract => "-"
  | multiply => "*"
  | divide => "/"

/-- The operator with the given sign. -/
def ofSymbol? (s : String) : Option Arithmetic := all.find? fun op => op.symbol == s

/-- The value of an operation.  Division by zero is infinite or no number. -/
def apply : Arithmetic → Float → Float → Float
  | add, x, y => x + y
  | subtract, x, y => x - y
  | multiply, x, y => x * y
  | divide, x, y => x / y

@[simp] theorem ofSymbol?_symbol (op : Arithmetic) : ofSymbol? op.symbol = some op := by
  cases op <;> decide

end Arithmetic

/-- The formula of a calculated measure. -/
structure Formula where
  operator : Arithmetic
  /-- The unique name of the left operand. -/
  lhs : String
  /-- The unique name of the right operand. -/
  rhs : String
  deriving DecidableEq, Repr

namespace Formula

/-- The text of a formula. -/
def text (f : Formula) : String := f.lhs ++ " " ++ f.operator.symbol ++ " " ++ f.rhs

/-- The formula with the operator `op`, if its sign occurs between blanks. -/
def readWith? (op : Arithmetic) (s : String) : Option Formula :=
  (splitAround? (" " ++ op.symbol ++ " ").toList s.toList).map fun (lhs, rhs) =>
    ⟨op, String.ofList (trimChars lhs), String.ofList (trimChars rhs)⟩

/-- The formula that a text spells.  The text is split at the first occurrence of the first
operator that occurs in it. -/
def read (s : String) : Outcome Formula :=
  match Arithmetic.all.findSome? fun op => readWith? op s with
  | some f => .ok f
  | none => .error (.invalidMetadata ("Invalid formula: " ++ s))

end Formula

/-! ### Measure attributes -/

/-- What a member that is a measure has besides other members. -/
structure MeasureInfo where
  aggregator : Aggregator
  /-- The datatype of the values. -/
  datatype : Option String
  /-- The formula of a calculated measure. -/
  formula : Option Formula
  deriving DecidableEq, Repr

end Datacube
