import SearchFilter.Filter.Basic
import SearchFilter.Json.Basic
import SearchFilter.Octets.Utf8

namespace SearchFilter

/-- Octets as text. -/
def Octets.project (bs : Octets) : Json :=
  .string (Utf8.decodeLossy bs)

/-- Octets as text, if there are any. -/
def Octets.projectOptional : Option Octets → Json
  | some bs => Octets.project bs
  | none => .null

/-- The fields of an extensible assertion. Its fragments are shown only where there is one. -/
def Extensible.fields (e : Extensible) : List (String × Json) :=
  let target := [("matchRule", Json.ofString? e.rule), ("matchType", Json.ofString? e.matchType),
    ("matchValue", Octets.project e.value), ("type", .string Kind.extensible.name)]
  match e.substrings with
  | some s =>
    if s.isEmpty then ("dnAttributes", .bool e.dnAttributes) :: target
    else
      [("any", .array (s.any.map Octets.project)), ("dnAttributes", .bool e.dnAttributes),
        ("final", Octets.projectOptional s.final), ("initial", Octets.projectOptional s.initial)] ++
        target
  | none => ("dnAttributes", .bool e.dnAttributes) :: target

/-- The fields of a leaf. -/
def Assertion.fields : Assertion → List (String × Json)
  | .empty => [("type", .string Kind.empty.name)]
  | .comparison op name value =>
    [("attribute", .string name), ("type", .string (Kind.comparison op).name),
      ("value", Octets.project value)]
  | .presence name => [("attribute", .string name), ("type", .string Kind.presence.name)]
  | .substring name s =>
    [("any", .array (s.any.map Octets.project)), ("attribute", .string name),
      ("final", Octets.projectOptional s.final), ("initial", Octets.projectOptional s.initial),
      ("type", .string Kind.substring.name)]
  | .extensible e => e.fields

namespace Filter

mutual

/-- The projection of a filter to a JSON value, for logs. Every node is an object with the name of
its kind; octets are shown as text, malformed runs replaced. Fields come in ascending order of their
keys. -/
def project : Filter → Json
  | leaf a => .object a.fields
  | negation f => .object [("filter", project f), ("type", .string Kind.negation.name)]
  | junction c fs =>
    .object [("filters", .array (projectAll fs)), ("type", .string (Kind.junction c).name)]

/-- The projections of some filters. -/
def projectAll : List Filter → List Json
  | [] => []
  | f :: fs => project f :: projectAll fs

end

end Filter

end SearchFilter
