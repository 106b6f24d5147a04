/-!
# Splitting at a pattern

## Main definitions

* `splitAround?` — the characters before and after the first occurrence of a pattern.
-/

namespace Datacube

/-- The characters before and after the first occurrence of `pattern`, if there is one. -/
def splitAround? (pattern : List Char) : List Char → Option (List Char × List Char)
  | [] => if pattern.isEmpty then some ([], []) else none
  | c :: cs =>
    if pattern.isPrefixOf (c :: cs) then some ([], (c :: cs).drop pattern.length)
    else (splitAround? pattern cs).map fun (before, after) => (c :: before, after)

/-- Whether a pattern occurs among the characters. -/
def occursIn (pattern cs : List Char) : Bool :=
  (splitAround? pattern cs).isSome

end Datacube
