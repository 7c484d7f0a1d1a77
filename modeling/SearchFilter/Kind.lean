namespace SearchFilter

/-- How the clauses of a filter combine. -/
inductive Connective where
  | and
  | or
  deriving DecidableEq, Repr

/-- How an attribute value is compared with an assertion value. -/
inductive Comparison where
  | equal
  | atLeast
  | atMost
  | approximate
  deriving DecidableEq, Repr

/-- The operator that stands for a comparison in a filter text. -/
def Comparison.symbol : Comparison → List Char
  | .equal => ['=']
  | .atLeast => ['>', '=']
  | .atMost => ['<', '=']
  | .approximate => ['~', '=']

/-- The kind of a filter is the choice made at its outermost node. It decides the tag that opens the
binary form and the name that the filter is reported under. -/
inductive Kind where
  /-- The empty filter. -/
  | empty
  | junction (c : Connective)
  | negation
  | comparison (op : Comparison)
  | presence
  | substring
  | extensible
  deriving DecidableEq, Repr

namespace Kind

/-- The tag of the element that encodes a filter of this kind. -/
def tag : Kind → UInt8
  | .empty => 0x30
  | .junction .and => 0xA0
  | .junction .or => 0xA1
  | .negation => 0xA2
  | .comparison .equal => 0xA3
  | .substring => 0xA4
  | .comparison .atLeast => 0xA5
  | .comparison .atMost => 0xA6
  | .presence => 0x87
  | .comparison .approximate => 0xA8
  | .extensible => 0xA9

/-- Every kind, in the order of the tags' choice numbers. -/
def all : List Kind :=
  [.empty, .junction .and, .junction .or, .negation, .comparison .equal, .substring,
   .comparison .atLeast, .comparison .atMost, .presence, .comparison .approximate, .extensible]

/-- The kind that a tag announces. -/
def ofTag? (t : UInt8) : Option Kind :=
  all.find? (·.tag == t)

/-- The name that messages and projections use. -/
def name : Kind → String
  | .empty => "FilterString"
  | .junction .and => "AndFilter"
  | .junction .or => "OrFilter"
  | .negation => "NotFilter"
  | .comparison .equal => "EqualityFilter"
  | .substring => "SubstringFilter"
  | .comparison .atLeast => "GreaterThanEqualsFilter"
  | .comparison .atMost => "LessThanEqualsFilter"
  | .presence => "PresenceFilter"
  | .comparison .approximate => "ApproximateFilter"
  | .extensible => "ExtensibleFilter"

/-- The kind of this name. -/
def ofName? (s : String) : Option Kind :=
  all.find? (·.name == s)

theorem mem_all (k : Kind) : k ∈ all := by
  cases k with
  | junction c => cases c <;> decide
  | comparison op => cases op <;> decide
  | _ => decide

/-- The tag of a kind announces this kind and no other. -/
theorem ofTag?_tag (k : Kind) : ofTag? k.tag = some k := by
  cases k with
  | junction c => cases c <;> decide
  | comparison op => cases op <;> decide
  | _ => decide

/-- No other tag announces a kind. -/
theorem tag_of_ofTag? {t : UInt8} {k : Kind} (h : ofTag? t = some k) : k.tag = t := by
  have hfound := List.find?_some h
  exact eq_of_beq hfound

end Kind

end SearchFilter
