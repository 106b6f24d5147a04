/-!
# Letter case

Keywords are compared without regard to the case of ASCII letters; all other characters are
compared as they are.

## Main definitions

* `upperCase`, `lowerCase` — a text with its ASCII letters in one case.
-/

namespace Datacube

/-- The text with ASCII letters in upper case. -/
def upperCase (s : String) : String := String.ofList (s.toList.map Char.toUpper)

/-- The text with ASCII letters in lower case. -/
def lowerCase (s : String) : String := String.ofList (s.toList.map Char.toLower)

/-- Whether two texts are equal up to the case of ASCII letters. -/
def sameLetters (s t : String) : Bool := lowerCase s == lowerCase t

end Datacube
