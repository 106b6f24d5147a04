import Datacube.Axis
import Datacube.Number.FixedPoint
import Datacube.Schema.Object

/-!
# Expressions

The syntax of queries.  A query is a `SELECT` statement, whose axes, slicer and definitions are
expressions.  Identifiers are not resolved yet, but an expression may already hold schema
objects.

## Main definitions

* `Expr` — expressions; `Select`, `AxisSpec` — statements and their axes.
* `Expr.text` — the text of an expression.
-/

namespace Datacube

/-! ### Syntax -/

/-- A literal. -/
inductive Literal where
  | number (value : FixedPoint)
  | text (value : String)
  /-- A bare word, such as the target of a cast. -/
  | symbol (word : String)
  | null
  deriving DecidableEq, Repr

/-- How a call is written. -/
inductive CallForm where
  /-- `Name(args)` -/
  | function
  /-- `arg.Name` -/
  | property
  /-- `arg.Name(args)` -/
  | method
  /-- `lhs op rhs` -/
  | binary
  /-- `op arg` -/
  | leading
  /-- `arg op` -/
  | trailing
  /-- A list of arguments in curly brackets. -/
  | braces
  /-- A list of arguments in round brackets. -/
  | parentheses
  /-- `CASE args END` -/
  | caseOf
  /-- `CAST(value AS type)` -/
  | castTo
  /-- Nothing is written, as for a missing argument. -/
  | empty
  deriving DecidableEq, Repr

/-- An axis of a statement. -/
structure AxisSpec (ε : Type) where
  ordinal : AxisOrdinal
  /-- Whether positions without values are asked to be left out. -/
  nonEmpty : Bool
  expr : ε
  deriving Repr

/-- A `SELECT` statement. -/
structure Select (ε : Type) where
  /-- The calculated members and named sets, in order. -/
  definitions : List ε
  axes : List (AxisSpec ε)
  /-- What is queried. -/
  source : ε
  /-- The restriction of the cells. -/
  slicer : Option ε
  deriving Repr

/-- An expression. -/
inductive Expr where
  /-- A function or an operator with its arguments. -/
  | call (name : String) (form : CallForm) (args : List Expr)
  | identifier (identifier : Identifier)
  | literal (literal : Literal)
  /-- An object that is resolved already. -/
  | object (object : SchemaObject)
  | axis (axis : AxisSpec Expr)
  /-- A parameter of the query with its default value. -/
  | parameter (name type : String) (default : Expr)
  /-- A property of a calculated member. -/
  | property (name : String) (value : Expr)
  /-- The definition of a calculated member. -/
  | calculatedMember (name : Identifier) (value : Expr) (properties : List (String × Expr))
  /-- The definition of a named set. -/
  | namedSet (name : Identifier) (value : Expr)
  | select (statement : Select Expr)
  /-- A request for the observations behind the cells of a statement. -/
  | drillThrough (statement : Select Expr) (maxRows firstRowSet : Option Nat)
      (columns : List Expr)

/-! ### Text -/

/-- The text of a literal; quotes in a text are doubled. -/
def Literal.toText : Literal → String
  | number value => value.text
  | text value => "'" ++ String.ofList (doubled (Char.ofNat 0x27) value.toList) ++ "'"
  | symbol word => word
  | null => "NULL"

/-- Texts separated by commas. -/
def commaList (texts : List String) : String := ", ".intercalate texts

/-- The text of a call whose arguments have the given texts.  A form with another number of
arguments than it is made for is written like a function. -/
def callText (name : String) : CallForm → List String → String
  | .property, [arg] => arg ++ "." ++ name
  | .method, arg :: rest => arg ++ "." ++ name ++ "(" ++ commaList rest ++ ")"
  | .binary, [lhs, rhs] => lhs ++ " " ++ name ++ " " ++ rhs
  | .leading, [arg] => name ++ " " ++ arg
  | .trailing, [arg] => arg ++ " " ++ name
  | .braces, args => "\x7b" ++ commaList args ++ "\x7d"
  | .parentheses, args => "(" ++ commaList args ++ ")"
  | .castTo, [value, target] => "CAST(" ++ value ++ " AS " ++ target ++ ")"
  | .caseOf, args => "CASE" ++ String.join (args.map (" " ++ ·)) ++ " END"
  | .empty, _ => ""
  | _, args => name ++ "(" ++ commaList args ++ ")"

/-- The text of an optional clause that begins with a keyword. -/
def clauseText (keyword : String) : Option String → String
  | none => ""
  | some text => keyword ++ text

mutual

/-- The text of an expression. -/
def Expr.text : Expr → String
  | .call name form args => callText name form (Expr.texts args)
  | .identifier i => i.uniqueName
  | .literal l => l.toText
  | .object o => o.uniqueName
  | .axis a => Expr.axisText a
  | .parameter name type default =>
    "Parameter('" ++ name ++ "', " ++ type ++ ", " ++ default.text ++ ")"
  | .property name value => name ++ " = " ++ value.text
  | .calculatedMember name value properties =>
    "MEMBER " ++ name.uniqueName ++ " AS " ++ value.text
      ++ String.join ((Expr.propertyTexts properties).map (", " ++ ·))
  | .namedSet name value => "SET " ++ name.uniqueName ++ " AS " ++ value.text
  | .select s => Expr.selectText s
  | .drillThrough s maxRows firstRowSet columns =>
    "DRILLTHROUGH" ++ clauseText " MAXROWS " (maxRows.map Nat.repr)
      ++ clauseText " FIRSTROWSET " (firstRowSet.map Nat.repr)
      ++ " " ++ Expr.selectText s
      ++ if columns.isEmpty then "" else " RETURN " ++ commaList (Expr.texts columns)

/-- The texts of expressions. -/
def Expr.texts : List Expr → List String
  | [] => []
  | e :: es => e.text :: Expr.texts es

/-- The text of an axis. -/
def Expr.axisText : AxisSpec Expr → String
  | ⟨ordinal, nonEmpty, expr⟩ =>
    (if nonEmpty then "NON EMPTY " else "") ++ expr.text ++ " ON " ++ ordinal.text

/-- The texts of axes. -/
def Expr.axisTexts : List (AxisSpec Expr) → List String
  | [] => []
  | a :: as => Expr.axisText a :: Expr.axisTexts as

/-- The text of a property of a calculated member. -/
def Expr.propertyText : String × Expr → String
  | (name, value) => name ++ " = " ++ value.text

/-- The texts of the properties of a calculated member. -/
def Expr.propertyTexts : List (String × Expr) → List String
  | [] => []
  | p :: ps => Expr.propertyText p :: Expr.propertyTexts ps

/-- The text of a slicer. -/
def Expr.slicerText : Option Expr → Option String
  | none => none
  | some e => some e.text

/-- The text of a statement. -/
def Expr.selectText : Select Expr → String
  | ⟨definitions, axes, source, slicer⟩ =>
    (if definitions.isEmpty then ""
      else "WITH" ++ String.join ((Expr.texts definitions).map (" " ++ ·)) ++ " ")
    ++ "SELECT " ++ commaList (Expr.axisTexts axes) ++ " FROM " ++ source.text
    ++ clauseText " WHERE " (Expr.slicerText slicer)

end

/-- The name of the kind of an expression. -/
def Expr.kind : Expr → String
  | .call .. => "Call"
  | .identifier .. => "Identifier"
  | .literal .. => "Literal"
  | .object (.cube _) => "Cube"
  | .object (.dimension _) => "Dimension"
  | .object (.hierarchy _) => "Hierarchy"
  | .object (.level _) => "Level"
  | .object (.member _) => "Member"
  | .axis .. => "Axis"
  | .parameter .. => "Parameter"
  | .property .. => "PropertyValue"
  | .calculatedMember .. => "WithMember"
  | .namedSet .. => "WithSet"
  | .select .. => "Select"
  | .drillThrough .. => "DrillThrough"

end Datacube
