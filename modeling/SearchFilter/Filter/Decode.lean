import SearchFilter.Ber.Reader
import SearchFilter.Ber.Writer
import SearchFilter.Filter.Encode

namespace SearchFilter

open Ber

namespace Decoding

/-- The attribute of an assertion. -/
def attributeName : Read String :=
  Read.string octetStringTag "attribute"

/-- The fields of a comparison. -/
def comparison (op : Comparison) : Read Assertion := do
  let name ← attributeName
  let value ← Read.octetString octetStringTag "value"
  return .comparison op name value

/-- The content of a presence assertion, which needs a name. -/
def presence : Read Assertion := do
  let bs ← Read.raw (← Read.lastLength)
  let name ← Read.text "presence attribute" bs
  if name.isEmpty then Read.fail (.node .unnamedPresence)
  else return .presence name

/-- The fragments so far, with one more: an initial fragment has to be the first and a final one the
last. -/
def addFragment (s : Substrings) (tag : UInt8) (fragment : Octets) :
    Except BerFault Substrings :=
  if s.final.isSome then .error .finalNotLast
  else if tag = Tags.fragment.initial then
    if s.initial.isSome || !s.any.isEmpty then .error .initialNotFirst
    else .ok { s with initial := some fragment }
  else if tag = Tags.fragment.any then .ok { s with any := s.any ++ [fragment] }
  else if tag = Tags.fragment.final then .ok { s with final := some fragment }
  else .error (.unknownFragment tag)

/-- One more fragment, which is read completely before it is judged. -/
def fragment (s : Substrings) : Read Substrings := do
  let tag ← Read.header
  let content ← Read.raw (← Read.lastLength)
  match addFragment s tag content with
  | .ok s => return s
  | .error fault => Read.fail fault

/-- Reads fragments as long as the reader stands before `stop`. -/
def fragments (stop : Nat) : (budget : Nat) → Substrings → Read Substrings
  | 0, s => return s
  | budget + 1, s => do
    if (← Read.offset) < stop then fragments stop budget (← fragment s)
    else return s

/-- The fields of a substring assertion. -/
def substring : Read Assertion := do
  let name ← attributeName
  let length ← Read.expect sequenceTag "substrings"
  let stop := (← Read.offset) + length
  let s ← fragments stop length { initial := none, any := [], final := none }
  if (← Read.offset) = stop then return .substring name s
  else Read.fail .fragmentsOverrun

/-- The fields of an extensible assertion that were read so far, and the tag of the last one. -/
structure Fields where
  rule : Option String
  matchType : Option String
  value : Option Octets
  dnAttributes : Bool
  last : UInt8
  deriving DecidableEq, Repr, Inhabited

namespace Fields

/-- Before the first field. -/
def none : Fields :=
  { rule := .none, matchType := .none, value := .none, dnAttributes := false, last := 0 }

end Fields

/-- One more field. Its tag has to be higher than the last one. -/
def field (s : Fields) : Read Fields := do
  match (← get).peek? with
  | none => Read.fail .missingTag
  | some tag =>
    let s' := { s with last := tag }
    if tag ≤ s.last then Read.fail (.fieldOrder tag)
    else if tag = Tags.field.rule then
      return { s' with rule := some (← Read.string tag "matchingRule") }
    else if tag = Tags.field.matchType then
      return { s' with matchType := some (← Read.string tag "type") }
    else if tag = Tags.field.value then
      return { s' with value := some (← Read.octetString tag "matchValue") }
    else if tag = Tags.field.dnAttributes then
      return { s' with dnAttributes := ← Read.boolean tag "dnAttributes" }
    else Read.fail (.unknownField tag)

/-- Reads fields as long as the reader stands before `stop`. -/
def fields (stop : Nat) : (budget : Nat) → Fields → Read Fields
  | 0, s => return s
  | budget + 1, s => do
    if (← Read.offset) < stop then fields stop budget (← field s)
    else return s

/-- The fields of an extensible assertion up to `stop`. -/
def extensible (stop : Nat) : Read Assertion := do
  let s ← fields stop (stop - (← Read.offset)) Fields.none
  match s.value with
  | none => Read.fail .missingValue
  | some value =>
    let e : Extensible :=
      { matchType := s.matchType, rule := s.rule, value, dnAttributes := s.dnAttributes,
        substrings := none }
    match e.validate with
    | .ok () => return .extensible e
    | .error fault => Read.fail (.node fault)

/-- The content of an element of this kind up to `stop`, with `one` for the filters in it. -/
def content (one : Read Filter) (kind : Kind) (stop : Nat) : Read Filter := do
  match kind with
  | .empty => do
    Read.null
    return .empty
  | .junction c => return .junction c (← Read.before one stop (stop - (← Read.offset)))
  | .negation => do
    if (← Read.offset) < stop then return .negation (← one)
    else Read.fail .nothingNegated
  | .comparison op => return .leaf (← comparison op)
  | .presence => return .leaf (← presence)
  | .substring => return .leaf (← substring)
  | .extensible => return .leaf (← extensible stop)

/-- The content of the element whose header was just read. It is read against the whole buffer, and
that it ends exactly where the element does is checked afterwards. -/
def body (one : Read Filter) (kind : Kind) : Read Filter := do
  let stop := (← Read.offset) + (← Read.lastLength)
  let f ← content one kind stop
  let reached ← Read.offset
  if reached = stop then return f
  else Read.fail (.envelopeMismatch kind stop reached)

/-- The filter at the reader's place, of at most `depth` levels. The depth is checked before anything
is read. -/
def filterWithin : (depth : Nat) → Read Filter
  | 0 => do Read.fail (.nestedTooDeep (← Read.offset))
  | depth + 1 => do
    let tag ← Read.header
    match Kind.ofTag? tag with
    | none => Read.fail (.unknownKind tag)
    | some kind => body (filterWithin depth) kind

/-- A depth that no filter in the rest of the buffer exceeds: each level takes an octet at least. -/
def ampleDepth (r : Reader) : Nat :=
  r.remaining + 1

/-- The filter at the reader's place. -/
def filter : Read Filter := fun r =>
  filterWithin (ampleDepth r) r

/-- Refuses octets behind a filter. -/
def finish : Read Unit := do
  let r ← get
  if r.rest.isEmpty then return () else Read.fail (.trailing r.remaining)

/-- A read with nothing behind it. -/
def complete (read : Read Filter) : Read Filter := do
  let f ← read
  finish
  return f

/-- What a read gives on a whole buffer, which it has to use up. -/
def whole (read : Read Filter) (data : Octets) : Except FilterError Filter :=
  match complete read (.ofOctets data) with
  | .ok f _ => .ok f
  | .error e _ => .error e

end Decoding

namespace Filter

/-- The filter that a buffer encodes. -/
def ofBer (data : Octets) : Except FilterError Filter :=
  Decoding.whole Decoding.filter data

/-- The filter of at most `depth` levels that a buffer encodes. A leaf counts as one level. -/
def ofBerWithin (depth : Nat) (data : Octets) : Except FilterError Filter :=
  Decoding.whole (Decoding.filterWithin depth) data

/-- The filter of a given kind that a buffer encodes. -/
def ofBerAs (kind : Kind) (data : Octets) : Except FilterError Filter :=
  Decoding.whole
    (do
      let tag ← Read.header
      if tag = kind.tag then Decoding.body (Decoding.filterWithin data.length) kind
      else throw (.tagMismatch kind.name kind.tag tag))
    data

end Filter

end SearchFilter
