import SearchFilter.Octets.Utf8
import SearchFilter.Text.Blank
import SearchFilter.Text.Decimal

namespace SearchFilter

/-- A single attribute value. -/
inductive Scalar where
  | bool (b : Bool)
  | integer (n : Int64)
  | text (s : String)
  deriving DecidableEq, Repr, Inhabited

namespace Scalar

/-- The characters of a value's text. Truth values have the spelling that directories use. -/
def chars : Scalar → List Char
  | bool true => ['T', 'R', 'U', 'E']
  | bool false => ['F', 'A', 'L', 'S', 'E']
  | integer n => Decimal.ofInt n.toInt
  | text s => s.toList

/-- The text of a value. -/
def render (s : Scalar) : String :=
  String.ofList s.chars

/-- The octets of a value's text. -/
def octets (s : Scalar) : Octets :=
  Utf8.encodeChars s.chars

/-- The integer that an assertion value is, with white space around it or not. -/
def assertedInteger? (assertion : Octets) : Option Int64 := do
  let cs ← Utf8.decodeChars? assertion
  Decimal.int64? (Blank.trim cs)

/-- How a value and an assertion value are ordered: by the octets of the value's text, except that
an integer and an assertion that is one too compare by their size. -/
def order (s : Scalar) (assertion : Octets) : Ordering :=
  match s, assertedInteger? assertion with
  | integer n, some m => compare n.toInt m.toInt
  | _, _ => compare s.octets assertion

end Scalar

end SearchFilter
