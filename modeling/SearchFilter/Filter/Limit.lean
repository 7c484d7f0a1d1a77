import SearchFilter.Filter.Decode
import SearchFilter.Filter.Parse

namespace SearchFilter

namespace Paren

/-- The deepest nesting of the parentheses of a text that starts `depth` parentheses deep, where
`deepest` was reached before. A parenthesis that closes nothing changes nothing. -/
def deepestFrom (depth deepest : Nat) : List Char → Nat
  | [] => deepest
  | c :: rest =>
    if c = '(' then deepestFrom (depth + 1) (max deepest (depth + 1)) rest
    else if c = ')' then deepestFrom (depth - 1) deepest rest
    else deepestFrom depth deepest rest

/-- How deep the parentheses of a filter text nest. An escaped parenthesis is none, and a text that
does not start with a parenthesis is read as if it stood in a pair of them. -/
def depth (text : String) : Nat :=
  let cs := text.toList
  if cs.head? = some '(' then deepestFrom 0 0 cs else deepestFrom 0 0 cs + 1

end Paren

/-- Why a filter text is refused under a limit. -/
inductive LimitedFault where
  /-- The parentheses nest deeper than the limit. -/
  | tooDeep (depth limit : Nat)
  /-- The text is no filter. -/
  | rejected (error : FilterError)
  deriving DecidableEq, Repr

namespace LimitedFault

/-- The message of a fault. -/
def message : LimitedFault → String
  | tooDeep depth limit =>
    s!"filter nesting depth {depth} exceeds max_depth {limit}"
  | rejected error => error.message

end LimitedFault

namespace Filter

/-- Reads a filter text under a limit, if there is one. The text is measured by its parentheses
first, so that one that nests too deep is never descended into. -/
def parseLimited (limit : Option Nat) (text : String) : Except LimitedFault Filter :=
  match limit with
  | some most =>
    if most < Paren.depth text then .error (.tooDeep (Paren.depth text) most)
    else (parse text).mapError .rejected
  | none => (parse text).mapError .rejected

/-- Reads an encoded filter under a limit, if there is one. An encoding is measured level by level
while it is read. -/
def ofBerLimited (limit : Option Nat) (data : Octets) : Except FilterError Filter :=
  match limit with
  | some most => ofBerWithin most data
  | none => ofBer data

end Filter

end SearchFilter
