/-!
# RDF terms

The values of all rows are RDF terms: resources, blank nodes and literals.  Most uses only
look at the lexical value.

## Main definitions

* `Term` — a term.
* `Term.value` — its lexical value.
-/

namespace Datacube

/-- The datatype of texts.  A literal of this type is the same as a simple literal. -/
def xsdString : String := "http://www.w3.org/2001/XMLSchema#string"

/-- The datatype of integers. -/
def xsdInteger : String := "http://www.w3.org/2001/XMLSchema#integer"

/-- The datatype of floating-point numbers. -/
def xsdDouble : String := "http://www.w3.org/2001/XMLSchema#double"

/-- An RDF term. -/
inductive Term where
  /-- A resource. -/
  | iri (iri : String)
  /-- A node without a name of its own. -/
  | blank (label : String)
  /-- A text without further annotation. -/
  | simple (value : String)
  /-- A literal of a datatype other than `xsdString`; see `Term.ofTyped`. -/
  | typed (value datatype : String)
  /-- A text in a language. -/
  | tagged (value language : String)
  deriving DecidableEq, Repr

namespace Term

/-- The literal with the given datatype. -/
def ofTyped (value datatype : String) : Term :=
  if datatype = xsdString then simple value else typed value datatype

/-- The lexical value of a term: the resource without angle brackets, the label of a blank
node, the text of a literal without its datatype or language. -/
def value : Term → String
  | iri s | blank s | simple s | typed s _ | tagged s _ => s

@[simp] theorem value_iri (s : String) : (iri s).value = s := rfl
@[simp] theorem value_blank (s : String) : (blank s).value = s := rfl
@[simp] theorem value_simple (s : String) : (simple s).value = s := rfl
@[simp] theorem value_typed (s d : String) : (typed s d).value = s := rfl
@[simp] theorem value_tagged (s l : String) : (tagged s l).value = s := rfl

@[simp] theorem value_ofTyped (s d : String) : (ofTyped s d).value = s := by
  rw [ofTyped]; split <;> rfl

end Term

end Datacube
