import Datacube.Axis
import Datacube.Number.Reading
import Datacube.Number.Shortest
import Datacube.Schema.Object

/-!
# Values

What expressions evaluate to.

## Main definitions

* `Value` — numbers, texts, truth values, schema objects, sets and tuples.
* `Value.toNumber?`, `Value.toBoolean`, `Value.elements`, `Value.components` — conversions.
* `Value.text` — the text of a value.
* `Value.positions`, `Value.toAxis` — the positions that a value describes.
-/

namespace Datacube

/-- The value of an expression. -/
inductive Value where
  | number (value : Float)
  | text (value : String)
  | boolean (value : Bool)
  | object (object : SchemaObject)
  /-- A set; its elements are ordered and may repeat. -/
  | set (elements : List Value)
  /-- A tuple of members.  Unlike a set, it is a single element of a set around it. -/
  | tuple (components : List Value)
  | null

namespace Value

/-! ### Conversions -/

/-- The member that a value is. -/
def member? : Value → Option Member
  | object (.member m) => some m
  | _ => none

/-- The elements of a set.  Any other value is its only element. -/
def elements : Value → List Value
  | set values => values
  | value => [value]

/-- The components of a tuple.  Any other value is its only component. -/
def components : Value → List Value
  | tuple values => values
  | value => [value]

@[simp] theorem elements_set (values : List Value) : (set values).elements = values := rfl

@[simp] theorem elements_object (o : SchemaObject) : (object o).elements = [object o] := rfl

@[simp] theorem elements_tuple (values : List Value) : (tuple values).elements = [tuple values] :=
  rfl

@[simp] theorem components_tuple (values : List Value) : (tuple values).components = values := rfl

@[simp] theorem components_object (o : SchemaObject) : (object o).components = [object o] := rfl

/-- The number that a name or a URI denotes: that of its trailing part, once decoded. -/
def numberOfName? (name : String) : Option Float :=
  readNumber? (localName (trim (decodeName name)))

/-- The number that a value stands for. -/
def toNumber? : Value → Option Float
  | number x => some x
  | text s => numberOfName? s
  | boolean b => some (if b then 1 else 0)
  | object (.member m) => numberOfName? m.label.name
  | _ => none

/-- Whether a value counts as true. -/
def toBoolean : Value → Bool
  | boolean b => b
  | number x => x != 0
  | text s => sameLetters s "true"
  | _ => false

/-- Whether a value is the truth value true. -/
def isTrue : Value → Bool
  | boolean b => b
  | _ => false

/-! ### Text -/

mutual

/-- The text of a value.  Sets stand in curly and tuples in round brackets. -/
def toText : Value → String
  | number x => numberText x
  | text s => "'" ++ s ++ "'"
  | boolean b => if b then "true" else "false"
  | object o => o.kind ++ " " ++ o.uniqueName
  | set values => "\x7b" ++ ", ".intercalate (toTexts values) ++ "\x7d"
  | tuple values => "(" ++ ", ".intercalate (toTexts values) ++ ")"
  | null => "NULL"

/-- The texts of values. -/
def toTexts : List Value → List String
  | [] => []
  | v :: vs => v.toText :: toTexts vs

end

/-! ### Positions -/

/-- The member that a component of a tuple is. -/
def requireMember (ordinal : Nat) (v : Value) : Outcome Member :=
  match v.member? with
  | some m => .ok m
  | none => .error (.malformedTuple
      (v.toText ++ " in the tuple at position " ++ ordinal.repr ++ " is not a member"))

/-- The position that an element of an axis describes: a member, or a tuple of members that is
not empty. -/
def toPosition (ordinal : Nat) (v : Value) : Outcome Position :=
  match v with
  | object (.member m) => .ok ⟨ordinal, [m]⟩
  | tuple (first :: rest) => (⟨ordinal, ·⟩) <$> (first :: rest).mapM (requireMember ordinal)
  | other => .error (.malformedTuple
      (other.toText ++ " at position " ++ ordinal.repr ++ " is neither a member nor a tuple"))

/-- The positions that the elements of a value describe. -/
def positions (v : Value) : Outcome (List Position) :=
  v.elements.zipIdx.mapM fun (element, ordinal) => toPosition ordinal element

/-- The axis whose positions a value describes. -/
def toAxis (ordinal : AxisOrdinal) (v : Value) : Outcome Axis :=
  Axis.ofPositions ordinal <$> v.positions

end Value

end Datacube
