import Datacube.Text.Blank

/-!
# Unique names

A schema object is known by its unique name, a sequence of segments joined by dots.  Every
segment stands in brackets, `[Time].[2020]`, and a closing bracket inside a segment is written
twice.  Reading is more lenient than writing: a segment may stand without brackets, and white
space around it does not count.

## Main definitions

* `quoteSegment`, `joinSegments` — the unique name with given segments.
* `splitName` — the segments of a unique name.
* `Identifier` — a sequence of segments in a query.
-/

namespace Datacube

/-! ### Writing -/

/-- The characters with every `q` written twice. -/
def doubled (q : Char) : List Char → List Char
  | [] => []
  | c :: cs => if c = q then q :: q :: doubled q cs else c :: doubled q cs

/-- A segment in brackets. -/
def quoteChars (cs : List Char) : List Char :=
  '[' :: (doubled ']' cs ++ [']'])

/-- A segment in brackets. -/
def quoteSegment (s : String) : String :=
  String.ofList (quoteChars s.toList)

/-- The unique name with the given segments. -/
def joinSegments (segments : List String) : String :=
  ".".intercalate (segments.map quoteSegment)

@[simp] theorem doubled_nil (q : Char) : doubled q [] = [] := rfl

@[simp] theorem doubled_cons_self (q : Char) (cs : List Char) :
    doubled q (q :: cs) = q :: q :: doubled q cs := if_pos rfl

theorem doubled_cons_of_ne {q c : Char} (h : c ≠ q) (cs : List Char) :
    doubled q (c :: cs) = c :: doubled q cs := if_neg h

/-! ### Reading -/

/-- The characters of the current segment and the segments after it; `inside` tells whether
the reader stands between brackets.  Between brackets a dot separates nothing, an opening
bracket stands for itself and two closing ones stand for one. -/
def scanSegments (inside : Bool) : List Char → List Char × List (List Char)
  | [] => ([], [])
  | c :: cs =>
    if inside then
      if c = ']' then
        match cs with
        | ']' :: cs => let (now, later) := scanSegments true cs; (']' :: now, later)
        | cs => scanSegments false cs
      else let (now, later) := scanSegments true cs; (c :: now, later)
    else
      if c = '[' then scanSegments true cs
      else if c = '.' then let (next, later) := scanSegments false cs; ([], next :: later)
      else let (now, later) := scanSegments false cs; (c :: now, later)

/-- The segments of a unique name, each without the blanks around it. -/
def splitChars (cs : List Char) : List (List Char) :=
  let (first, rest) := scanSegments false cs
  (first :: rest).map trimChars

/-- The segments of a unique name, each without the blanks around it. -/
def splitName (s : String) : List String :=
  (splitChars s.toList).map String.ofList

/-! ### Identifiers -/

/-- A name in a query: segments without their brackets. -/
structure Identifier where
  /-- The segments, the outermost one first. -/
  segments : List String
  deriving DecidableEq, Repr

/-- The identifier that a unique name spells. -/
def Identifier.parse (s : String) : Identifier := ⟨splitName s⟩

/-- The unique name of an identifier. -/
def Identifier.uniqueName (i : Identifier) : String := joinSegments i.segments

/-- The last segment of an identifier. -/
def Identifier.name (i : Identifier) : String := i.segments.getLast?.getD ""

end Datacube
