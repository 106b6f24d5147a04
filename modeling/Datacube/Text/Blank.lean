/-!
# White space

The characters that may surround a name or a number without belonging to it: the
twenty-five code points with the Unicode property `White_Space`.  The property is
wider than `Char.isWhitespace`, which knows six ASCII characters only, and it does
not hold of the zero-width characters (U+200B, U+FEFF).

## Main definitions

* `isBlank` — the property.
* `trimChars`, `trim` — a text without the blanks at its two ends.
-/

namespace Datacube

/-- The code points with the Unicode property `White_Space`, in ascending order. -/
def blankCodePoints : List Nat :=
  [0x09, 0x0A, 0x0B, 0x0C, 0x0D, 0x20, 0x85, 0xA0, 0x1680,
    0x2000, 0x2001, 0x2002, 0x2003, 0x2004, 0x2005, 0x2006, 0x2007, 0x2008, 0x2009, 0x200A,
    0x2028, 0x2029, 0x202F, 0x205F, 0x3000]

/-- Whether a character is white space. -/
def isBlank (c : Char) : Bool :=
  blankCodePoints.contains c.toNat

/-- The characters without the blanks in front. -/
def trimFront (cs : List Char) : List Char :=
  cs.dropWhile isBlank

/-- The characters without the blanks at the end. -/
def trimBack (cs : List Char) : List Char :=
  (cs.reverse.dropWhile isBlank).reverse

/-- The characters without the blanks at both ends. -/
def trimChars (cs : List Char) : List Char :=
  trimBack (trimFront cs)

/-- A text without the blanks at both ends. -/
def trim (s : String) : String :=
  String.ofList (trimChars s.toList)

@[simp] theorem trimFront_nil : trimFront [] = [] := rfl
@[simp] theorem trimBack_nil : trimBack [] = [] := rfl
@[simp] theorem trimChars_nil : trimChars [] = [] := rfl

@[simp] theorem toList_trim (s : String) : (trim s).toList = trimChars s.toList := by
  simp [trim]

end Datacube
