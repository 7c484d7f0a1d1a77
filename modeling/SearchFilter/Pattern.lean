import SearchFilter.Error
import SearchFilter.Filter.Basic
import SearchFilter.Octets.Utf8

namespace SearchFilter

/-- The fragments of a substring assertion as texts; what is malformed in their octets has been
replaced. A text fits a pattern if it holds the fragments in order without overlap, an initial
fragment at the start, a final one at the end, and no line break in the gap between two fragments.
What lies before the first fragment and behind the last one is free. -/
structure Pattern where
  initial : Option (List Char)
  any : List (List Char)
  final : Option (List Char)
  deriving DecidableEq, Repr, Inhabited

namespace Pattern

/-- The pattern of a substring assertion. -/
def ofSubstrings (s : Substrings) : Pattern :=
  { initial := s.initial.map Utf8.decodeCharsLossy
    any := s.any.map Utf8.decodeCharsLossy
    final := s.final.map Utf8.decodeCharsLossy }

/-- The fragments in order. -/
def fragments (p : Pattern) : List (List Char) :=
  p.initial.toList ++ p.any ++ p.final.toList

/-- The characters that have a meaning of their own in a regular expression. -/
def operators : List Char :=
  ['\\', '.', '+', '*', '?', '(', ')', '|', '[', ']', '\x7b', '\x7d', '^', '$', '#', '&', '-', '~']

/-- A fragment as a regular expression that matches it literally. -/
def quote (cs : List Char) : List Char :=
  cs.flatMap (fun c => if c ∈ operators then ['\\', c] else [c])

/-- The pattern as a regular expression, whose compiled form may not be too large. -/
def regex (p : Pattern) : List Char :=
  (p.initial.map (fun f => '^' :: quote f ++ ['.', '*'])).getD [] ++
    p.any.flatMap (fun f => quote f ++ ['.', '*']) ++
    (p.final.map (fun f => quote f ++ ['$'])).getD []

/-- How many octets the fragments have. -/
def octetCount (p : Pattern) : Nat :=
  p.fragments.foldl (fun n fragment => n + (Utf8.encodeChars fragment).length) 0

/-- How many gaps stand in the regular expression: one behind each fragment but the final one. -/
def gapCount (p : Pattern) : Nat :=
  p.initial.toList.length + p.any.length

/-- The size of the compiled form that is searched forwards. A search that is not bound to the start
begins with a loop. -/
def forwardSize (p : Pattern) : Nat :=
  (if p.initial.isSome then 64 else 112) + 96 + 32 * p.octetCount + 464 * p.gapCount +
    (if p.final.isSome then 32 else 0)

/-- The size of the compiled form that is searched backwards. -/
def backwardSize (p : Pattern) : Nat :=
  (if p.final.isSome then 64 else 112) + 32 + 32 * p.octetCount + 1040 * p.gapCount +
    (if p.initial.isSome then 32 else 0)

/-- The greatest size of a compiled form. -/
def sizeLimit : Nat := 10485760

/-- The pattern of a substring assertion, if it is not too large. -/
def compile (s : Substrings) : Except FilterError Pattern :=
  let p := ofSubstrings s
  if max p.forwardSize p.backwardSize ≤ sizeLimit then .ok p
  else .error (.invalid (.patternTooLarge sizeLimit))

/-- For each end piece of a text, from the whole text down to nothing, whether the fragment stands
at its start with `next` holding behind it. The list `next` is one for the same end pieces. -/
def startsWith (fragment : List Char) : List Char → List Bool → List Bool
  | [], next => [fragment.isEmpty && next.headD false]
  | c :: rest, next =>
    (fragment.isPrefixOf (c :: rest) && (next.drop fragment.length).headD false) ::
      startsWith fragment rest next.tail

/-- For each end piece of a text, whether `next` holds for it or for one that begins behind a gap
without a line break. -/
def afterGap : List Char → List Bool → List Bool
  | [], next => [next.headD false]
  | c :: rest, next =>
    let behind := afterGap rest next.tail
    (next.headD false || (c != '\n' && behind.headD false)) :: behind

/-- For each end piece of a text, whether it starts with the fragments, gaps between them, and
`stop` holds behind the last one. -/
def chain (text : List Char) (stop : List Bool) : List (List Char) → List Bool
  | [] => stop
  | [fragment] => startsWith fragment text stop
  | fragment :: others => startsWith fragment text (afterGap text (chain text stop others))

/-- For each end piece of a text, whether the pattern may end there: only with the text if there is
a final fragment. -/
def mayStop (p : Pattern) (text : List Char) : List Bool :=
  match p.final with
  | none => text.map (fun _ => true) ++ [true]
  | some _ => text.map (fun _ => false) ++ [true]

/-- Whether a text fits the pattern. -/
def fits (p : Pattern) (text : List Char) : Bool :=
  let here := chain text (p.mayStop text) p.fragments
  match p.initial with
  | some _ => here.headD false
  | none => here.any id

end Pattern

end SearchFilter
