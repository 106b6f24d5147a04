import Datacube.Fault
import Datacube.Term
import Datacube.Text.Count

/-!
# Row sets

Tables of terms with a header.  Schema objects, the parameters of plan operators and the
results of queries are all exchanged as row sets.  Every row has one value per column.

## Main definitions

* `Row` — a single row together with the header.
* `RowSet` — a header and rows of its width.
* `RowSet.ofRows?` — the row set with given rows, if they have the width of the header.
* `Row.text?`, `Row.require`, `Row.count?` — values of a column, with emptiness as absence.
-/

namespace Datacube

/-! ### Rows -/

/-- A row: its values, each with the name of its column. -/
abbrev Row := List (String × Term)

namespace Row

/-- The values of a row in column order. -/
def values (row : Row) : List Term := row.map Prod.snd

/-- The value of a column, the first one of that name. -/
def get? (row : Row) (column : String) : Option Term := row.lookup column

/-- The lexical value of a column.  An empty value counts as absent. -/
def text? (row : Row) (column : String) : Option String :=
  ((row.get? column).map Term.value).filter (· ≠ "")

/-- The lexical value of a column that must not be absent. -/
def require (row : Row) (column : String) : Outcome String :=
  match row.text? column with
  | some value => .ok value
  | none => .error (.invalidMetadata ("Missing value for " ++ column))

/-- The count in a column, if there is a value. -/
def count? (row : Row) (column : String) : Outcome (Option Nat) :=
  match row.text? column with
  | none => .ok none
  | some value =>
    match readCount? (trim value) with
    | some n => .ok (some n)
    | none => .error (.invalidMetadata (value ++ " is not a valid " ++ column))

/-- The count in a column, zero if there is no value. -/
def countOrZero (row : Row) (column : String) : Outcome Nat :=
  (row.count? column).map (·.getD 0)

end Row

/-! ### Row sets -/

/-- A table of terms. -/
structure RowSet where
  /-- The names of the columns. -/
  columns : List String
  /-- The rows, without the header. -/
  rows : List (List Term)
  /-- Every row has one value per column. -/
  width_eq : ∀ row ∈ rows, row.length = columns.length
  deriving DecidableEq

namespace RowSet

@[ext] theorem ext {r s : RowSet} (hc : r.columns = s.columns) (hr : r.rows = s.rows) : r = s := by
  cases r; cases s; simp_all

/-- The row set without rows. -/
def empty (columns : List String) : RowSet := ⟨columns, [], by simp⟩

instance : Inhabited RowSet := ⟨empty []⟩

/-- The number of rows. -/
def size (r : RowSet) : Nat := r.rows.length

/-- Whether there is no row. -/
def isEmpty (r : RowSet) : Bool := r.rows.isEmpty

/-- The place of the first column of a name. -/
def columnIndex? (r : RowSet) (column : String) : Option Nat := r.columns.idxOf? column

/-- The fault of a row whose length is not the number of columns. -/
def widthFault (columns : List String) (row : List Term) : Fault :=
  .malformedResult
    ("Expected " ++ Nat.repr columns.length ++ " values but the row has " ++ Nat.repr row.length)

/-- Appends a row, which must have one value per column. -/
def push (r : RowSet) (row : List Term) : Outcome RowSet :=
  if h : row.length = r.columns.length then
    .ok ⟨r.columns, r.rows ++ [row], by
      intro x hx
      rcases List.mem_append.1 hx with hx | hx
      · exact r.width_eq x hx
      · rw [List.mem_singleton.1 hx, h]⟩
  else .error (widthFault r.columns row)

/-- The row set with the given rows.  The first row of another width is a fault. -/
def ofRows? (columns : List String) (rows : List (List Term)) : Outcome RowSet :=
  if h : ∀ row ∈ rows, row.length = columns.length then .ok ⟨columns, rows, h⟩
  else .error (widthFault columns ((rows.find? fun row => row.length ≠ columns.length).getD []))

theorem ofRows?_eq_ok_iff {columns : List String} {rows : List (List Term)} {r : RowSet} :
    ofRows? columns rows = .ok r ↔ r.columns = columns ∧ r.rows = rows := by
  constructor
  · intro h
    rw [ofRows?] at h
    split at h
    · cases h
      exact ⟨rfl, rfl⟩
    · cases h
  · rintro ⟨rfl, rfl⟩
    exact dif_pos r.width_eq

/-- The rows, each with the header. -/
def tuples (r : RowSet) : List Row := r.rows.map fun row => r.columns.zip row

/-- The rows that satisfy a predicate. -/
def filter (r : RowSet) (p : Row → Bool) : RowSet :=
  ⟨r.columns, r.rows.filter fun row => p (r.columns.zip row), by
    intro row h
    exact r.width_eq row (List.mem_filter.1 h).1⟩

@[simp] theorem columns_filter (r : RowSet) (p : Row → Bool) :
    (r.filter p).columns = r.columns := rfl

@[simp] theorem tuples_filter (r : RowSet) (p : Row → Bool) :
    (r.filter p).tuples = r.tuples.filter p := by
  simp [tuples, filter, List.filter_map, Function.comp_def]

@[simp] theorem columns_empty (columns : List String) : (empty columns).columns = columns := rfl

@[simp] theorem tuples_empty (columns : List String) : (empty columns).tuples = [] := rfl

/-- The texts of a column, one for each row, joined by commas.  An absent value is empty. -/
def columnText (r : RowSet) (column : String) : String :=
  ", ".intercalate (r.tuples.map fun row => (row.text? column).getD "")

end RowSet

end Datacube
