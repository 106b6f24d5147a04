/-!
# Faults

What can go wrong while a multidimensional query is evaluated, planned or executed.  Every fault
but the last two describes the shape of the query or of the schema objects, so asking again
does not help.

## Main definitions

* `Fault` — the causes.
* `Fault.message` — the text that is shown for a cause.
-/

namespace Datacube

/-- The cause of a failure. -/
inductive Fault where
  /-- An identifier names no schema object. -/
  | unresolvedIdentifier (identifier : String)
  /-- A function, operator or expression outside the supported language. -/
  | unsupportedOperation (operation : String)
  /-- A cast to another type than numbers. -/
  | unsupportedCast (target : String)
  /-- A literal that is neither a number nor a text. -/
  | unsupportedLiteral (literal : String)
  /-- More axes than a result can have, the slicer not counted. -/
  | unsupportedAxisCount (count : Nat)
  /-- An element of an axis is neither a member nor a tuple of members. -/
  | malformedTuple (reason : String)
  /-- A cell is addressed by more than one measure. -/
  | multipleMeasures (measures : String)
  /-- No measure is used and the cube declares none. -/
  | noMeasureAvailable (cube : String)
  /-- An ordinal or coordinate outside the grid of cells. -/
  | indexOutOfBounds (index size : Nat)
  /-- The positions of an axis differ in their hierarchies or levels. -/
  | heterogeneousAxis (axis reason : String)
  /-- A row does not describe a schema object. -/
  | invalidMetadata (reason : String)
  /-- A row does not fit its header, or a result does not fit its plan. -/
  | malformedResult (reason : String)
  /-- The engine reports a failure of its own. -/
  | engine (report : String)
  /-- A search among the descendants of a member went below the admitted number of
  generations. -/
  | searchTooDeep (segment : String)
  deriving DecidableEq, Repr

/-- The text that is shown for a fault. -/
def Fault.message : Fault → String
  | .unresolvedIdentifier identifier => "Unable to resolve the identifier " ++ identifier
  | .unsupportedOperation operation => "Unsupported operation: " ++ operation
  | .unsupportedCast target => "Cannot cast to " ++ target ++ ", only NUMERIC is supported"
  | .unsupportedLiteral literal => "Unsupported literal type: " ++ literal
  | .unsupportedAxisCount count =>
    "Only two axes are supported, but the query has " ++ Nat.repr count
  | .malformedTuple reason => "Malformed tuple: " ++ reason
  | .multipleMeasures measures =>
    "A cell can only be addressed by a single measure, found " ++ measures
  | .noMeasureAvailable cube => "The cube " ++ cube ++ " does not declare any measure"
  | .indexOutOfBounds index size =>
    "Index " ++ Nat.repr index ++ " is out of bounds (size " ++ Nat.repr size ++ ")"
  | .heterogeneousAxis axis reason =>
    "All positions of axis " ++ axis ++ " must use the same hierarchies and levels: " ++ reason
  | .invalidMetadata reason => "Invalid metadata: " ++ reason
  | .malformedResult reason => "Malformed query result: " ++ reason
  | .engine report => "Error from the Linked Data Engine: " ++ report
  | .searchTooDeep segment => "The search for " ++ segment ++ " does not come to an end"

/-- A computation that may end in a fault. -/
abbrev Outcome := Except Fault

instance Outcome.decEq {ε α : Type} [DecidableEq ε] [DecidableEq α] : DecidableEq (Except ε α)
  | .error x, .error y => decidable_of_iff (x = y) ⟨congrArg Except.error, Except.error.inj⟩
  | .error _, .ok _ => isFalse nofun
  | .ok _, .error _ => isFalse nofun
  | .ok a, .ok b => decidable_of_iff (a = b) ⟨congrArg Except.ok, Except.ok.inj⟩

end Datacube
