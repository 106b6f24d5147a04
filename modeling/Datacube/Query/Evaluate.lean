import Datacube.Ordering
import Datacube.Query.Meaning

/-!
# Evaluation of queries

The evaluation of a statement resolves its cube, then its definitions in order, then the slicer,
and then the axes in the order of their ordinals.

## Main definitions

* `Provider.evaluate` — the value of an expression in a context.
* `Provider.define` — the context after a definition.
* `Query`, `Provider.evaluateQuery` — the cube, the axes and the slicer of a statement.
-/

namespace Datacube

/-- The result of the evaluation of a statement. -/
structure Query where
  cube : Cube
  /-- The calculated members in the order of their definition. -/
  calculated : List Member
  /-- The axes in the order of their ordinals. -/
  axes : List Axis
  slicer : Option Axis
  deriving DecidableEq, Repr

namespace Provider

variable {m : Type → Type} [Monad m] [MonadExcept Fault m] (p : Provider m)

/-! ### Expressions -/

/-- The value of a literal.  Words and nulls have none. -/
def literalValue : Literal → m Value
  | .number x => pure (.number x.toFloat)
  | .text s => pure (.text s)
  | l => throw (.unsupportedLiteral l.toText)

mutual

/-- The value of an expression in a context. -/
def evaluate : Expr → Meaning m
  | .call name form args =>
    p.apply name (callText name form (Expr.texts args)) (arguments args)
  | .identifier i => p.resolve i
  | .literal l => fun _ => literalValue l
  | .object o => fun _ => pure (.object o)
  | .axis a => evaluateAxisSpec a
  | .parameter _ _ default => evaluate default
  | .property _ value => evaluate value
  | .calculatedMember name value properties =>
    fun _ => outOfPlace (.calculatedMember name value properties)
  | .namedSet name value => fun _ => outOfPlace (.namedSet name value)
  | .select s => fun _ => outOfPlace (.select s)
  | .drillThrough s maxRows firstRowSet columns =>
    fun _ => outOfPlace (.drillThrough s maxRows firstRowSet columns)
where
  /-- The fault of a statement or a definition inside an expression. -/
  outOfPlace (e : Expr) : m Value :=
    unsupported (e.kind ++ " within an expression: " ++ e.text)

/-- The value of the expression of an axis. -/
def evaluateAxisSpec : AxisSpec Expr → Meaning m
  | ⟨_, _, expr⟩ => evaluate expr

/-- Expressions as arguments. -/
def arguments : List Expr → List (Argument m)
  | [] => []
  | e :: es => ⟨e, evaluate e⟩ :: arguments es

end

/-! ### Definitions -/

/-- The operator and the operands of the formula that defines a calculated member. -/
def formulaParts? : Expr → Option (Arithmetic × Expr × Expr)
  | .call name .binary [lhs, rhs] => (Arithmetic.ofSymbol? name).map fun op => (op, lhs, rhs)
  | _ => none

/-- The number of members that come before the calculated ones in the level of a member. -/
def siblingCount (cube : Cube) (member : Member) : m Nat := do
  if member.isMeasure then return (← p.measures cube).length
  else return (← p.levelOf cube member).cardinality

/-- The fault of a definition whose expression is no operation on two members. -/
def formulaFault (name : Identifier) (value : Expr) : Fault :=
  .unsupportedOperation ("Calculated member " ++ name.uniqueName
    ++ " must be a binary arithmetic expression over two members: " ++ value.text)

/-- The member that a definition describes.  It belongs to the level of its first operand, after
the members of that level and the calculated members defined before. -/
def calculatedMember (name : Identifier) (value : Expr) (c : Context) : m Member := do
  match formulaParts? value with
  | none => throw (formulaFault name value)
  | some (operator, lhs, rhs) =>
    let x ← p.evaluate lhs c
    let y ← p.evaluate rhs c
    match x.member?, y.member? with
    | some x, some y =>
      let count ← p.siblingCount (← c.requireCube) x
      return .calculated (.ofName name.uniqueName name.name) x (count + c.members.length)
        ⟨operator, x.label.uniqueName, y.label.uniqueName⟩
    | _, _ => throw (formulaFault name value)

/-- The context after a definition. -/
def define (c : Context) : Expr → m Context
  | .calculatedMember name value _ => return c.withMember (← p.calculatedMember name value c)
  | .namedSet name value => return c.withSet name.uniqueName (← p.evaluate value c)
  | e => unsupported (e.kind ++ " in the WITH clause: " ++ e.text)

/-! ### Statements -/

/-- The cube that a statement queries. -/
def sourceCube : Expr → m Cube
  | .object (.cube cube) => pure cube
  | .identifier i => do
    match ← p.cube i.name with
    | some cube => pure cube
    | none => throw (.unresolvedIdentifier i.uniqueName)
  | e => unsupported (e.kind ++ " in the FROM clause: " ++ e.text)

/-- A computation with the fault of an outcome. -/
def lift {α : Type} : Outcome α → m α
  | .ok a => pure a
  | .error e => throw e

/-- The axis that the value of an expression describes. -/
def evaluateAxis (ordinal : AxisOrdinal) (e : Expr) (c : Context) : m Axis := do
  lift ((← p.evaluate e c).toAxis ordinal)

/-- The axes of a statement that are left, beginning with the one of index `n`. -/
def evaluateAxes (c : Context) (n : Nat) : List (AxisSpec Expr) → m (List Axis)
  | [] => pure []
  | a :: as => do
    if a.ordinal = .index n then
      let axis ← p.evaluateAxis (.index n) a.expr c
      return axis :: (← evaluateAxes c (n + 1) as)
    else
      unsupported ("Axis " ++ a.ordinal.text ++ " requires an axis " ++ (AxisOrdinal.index n).text)

/-- The greatest number of axes besides the slicer. -/
def maxAxes : Nat := 2

/-- The result of a statement. -/
def evaluateQuery (s : Select Expr) : m Query := do
  let cube ← p.sourceCube s.source
  let c ← s.definitions.foldlM p.define (.ofCube cube)
  let slicer ← s.slicer.mapM fun e => p.evaluateAxis .slicer e c
  if maxAxes < s.axes.length then throw (.unsupportedAxisCount s.axes.length)
  let axes ← p.evaluateAxes c 0 (sortBy (fun a b => a.ordinal.le b.ordinal) s.axes)
  return { cube, calculated := c.members, axes, slicer }

end Provider

end Datacube
