import Datacube.Text.Percent
import Datacube.Text.Split
import Datacube.Text.Utf8
import Datacube.UniqueName.Basic

/-!
# Names of linked-data resources

Resources are identified by URIs, whose punctuation cannot stand in a name.  A URI is written
as a name by escaping the bytes of every character other than an ASCII letter or digit, and of
the letter `X`, as three `X` and two hexadecimal digits.  Since `X` itself is always escaped,
three of them always begin an escape, and the name can be read back.

## Main definitions

* `encodeUri`, `decodeName` — from a URI to a name and back.
* `canonicalName` — a unique name with its segments decoded.
* `localName` — the trailing part of a URI.
-/

namespace Datacube

/-! ### Escaping -/

/-- Whether a byte stands for itself in an encoded name. -/
def isPlainByte (b : UInt8) : Bool :=
  let c := Char.ofNat b.toNat
  c.isAlphanum && c != 'X'

/-- The encoded form of a byte. -/
def encodeByte (b : UInt8) : List Char :=
  if isPlainByte b then [Char.ofNat b.toNat] else 'X' :: 'X' :: 'X' :: hexByte b

/-- The name that a URI is written as. -/
def encodeUri (uri : String) : String :=
  String.ofList ((encodeUtf8 uri.toList).flatMap encodeByte)

/-- The characters with every three `X` in a row replaced by a percent sign. -/
def marksToPercent : List Char → List Char
  | 'X' :: 'X' :: 'X' :: cs => '%' :: marksToPercent cs
  | c :: cs => c :: marksToPercent cs
  | [] => []

/-- The URI that a name stands for.  A name without escapes stands for itself. -/
def decodeName (name : String) : String :=
  String.ofList (decodeUtf8 (percentDecode (encodeUtf8 (marksToPercent name.toList))))

/-- The unique name of the object that a URI identifies. -/
def uniqueNameOfUri (uri : String) : String :=
  "[" ++ encodeUri uri ++ "]"

/-! ### Forms of a name -/

/-- The canonical form of a unique name: its decoded segments, joined by dots.  For the name of
a resource this is its URI.  Results of a query report members in this form. -/
def canonicalName (uniqueName : String) : String :=
  ".".intercalate ((splitName uniqueName).map decodeName)

/-- The characters after the last `#` or `/`, or all of them. -/
def afterLastSeparator (cs : List Char) : List Char :=
  (cs.reverse.takeWhile fun c => c != '#' && c != '/').reverse

/-- The trailing part of a URI: what follows its last `#` or `/`.  Another text has no such part
and stays as it is. -/
def localName (s : String) : String :=
  if occursIn "://".toList s.toList then String.ofList (afterLastSeparator s.toList) else s

end Datacube
