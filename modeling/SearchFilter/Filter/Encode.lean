import SearchFilter.Ber.Writer
import SearchFilter.Filter.Basic

namespace SearchFilter

/-- The tags of the fragments of a substring assertion. -/
structure FragmentTags where
  initial : UInt8
  any : UInt8
  final : UInt8

/-- The tags of the fields of an extensible assertion. -/
structure FieldTags where
  rule : UInt8
  matchType : UInt8
  value : UInt8
  dnAttributes : UInt8

namespace Tags

/-- Fragments are numbered in the order in which they match. -/
def fragment : FragmentTags :=
  { initial := 0x80, any := 0x81, final := 0x82 }

/-- Fields are numbered in the order in which they are written. -/
def field : FieldTags :=
  { rule := 0x81, matchType := 0x82, value := 0x83, dnAttributes := 0x84 }

end Tags

open Ber

/-- The element of an optional field. -/
def optionalElement (tag : UInt8) : Option Octets → Octets
  | some content => element tag content
  | none => []

/-- The elements of the fragments. -/
def Substrings.encode (s : Substrings) : Octets :=
  optionalElement Tags.fragment.initial s.initial ++ s.any.flatMap (element Tags.fragment.any) ++
    optionalElement Tags.fragment.final s.final

/-- The elements of the fields. The flag is written only where it is set, and the substring view not
at all. -/
def Extensible.encode (e : Extensible) : Octets :=
  optionalElement Tags.field.rule (e.rule.map Utf8.encode) ++
    optionalElement Tags.field.matchType (e.matchType.map Utf8.encode) ++
    element Tags.field.value e.value ++
    if e.dnAttributes then element Tags.field.dnAttributes [Writer.booleanOctet true] else []

/-- The content of the element that encodes a leaf. -/
def Assertion.encode : Assertion → Octets
  | .empty => element Read.nullTag []
  | .comparison _ name value =>
    element octetStringTag (Utf8.encode name) ++ element octetStringTag value
  | .presence name => Utf8.encode name
  | .substring name fragments =>
    element octetStringTag (Utf8.encode name) ++ element sequenceTag fragments.encode
  | .extensible e => e.encode

namespace Filter

mutual

/-- The element that encodes a filter: it has the tag of the filter's kind, and its content is made
of elements for the clauses or for the fields of the assertion. -/
def toBer : Filter → Octets
  | leaf a => element a.kind.tag a.encode
  | negation f => element Kind.negation.tag (toBer f)
  | junction c fs => element (Kind.junction c).tag (toBerAll fs)

/-- The elements that encode a list of filters, one behind the other. -/
def toBerAll : List Filter → Octets
  | [] => []
  | f :: fs => toBer f ++ toBerAll fs

end

end Filter

namespace Ber.Writer

/-- Writes an optional field. -/
def optional (w : Writer) (tag : UInt8) : Option Octets → Writer
  | some content => w.octetString tag content
  | none => w

/-- Writes fragments. -/
def substrings (w : Writer) (s : Substrings) : Writer :=
  let w := w.optional Tags.fragment.initial s.initial
  let w := s.any.foldl (·.octetString Tags.fragment.any ·) w
  w.optional Tags.fragment.final s.final

/-- Writes the fields of an extensible assertion. -/
def extensible (w : Writer) (e : Extensible) : Writer :=
  let w := w.optional Tags.field.rule (e.rule.map Utf8.encode)
  let w := w.optional Tags.field.matchType (e.matchType.map Utf8.encode)
  let w := w.octetString Tags.field.value e.value
  if e.dnAttributes then w.boolean Tags.field.dnAttributes true else w

/-- Writes the element of a leaf. -/
def assertion (w : Writer) (a : Assertion) : Writer :=
  match a with
  | .empty => ((w.openSequence a.kind.tag).null).closeSequence
  | .comparison _ name value =>
    (((w.openSequence a.kind.tag).string name).octetString octetStringTag value).closeSequence
  | .presence name => w.octetString a.kind.tag (Utf8.encode name)
  | .substring name fragments =>
    let w := ((w.openSequence a.kind.tag).string name).openSequence sequenceTag
    (w.substrings fragments).closeSequence.closeSequence
  | .extensible e => ((w.openSequence a.kind.tag).extensible e).closeSequence

mutual

/-- Writes the element of a filter, step by step. The octets are those of `toBer`. -/
def filter (w : Writer) : Filter → Writer
  | .leaf a => w.assertion a
  | .negation f => (filter (w.openSequence Kind.negation.tag) f).closeSequence
  | .junction c fs => (filters (w.openSequence (Kind.junction c).tag) fs).closeSequence

/-- Writes the elements of a list of filters. -/
def filters (w : Writer) : List Filter → Writer
  | [] => w
  | f :: fs => filters (filter w f) fs

end

end Ber.Writer

end SearchFilter
