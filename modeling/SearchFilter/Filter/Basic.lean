import SearchFilter.Error

namespace SearchFilter

/-- The fragments of a substring assertion, which a value holds in this order. An absent initial or
final fragment differs from an empty one. -/
structure Substrings where
  initial : Option Octets
  any : List Octets
  final : Option Octets
  deriving DecidableEq, Repr, Inhabited

namespace Substrings

/-- Whether there is no fragment at all. -/
def isEmpty (s : Substrings) : Bool :=
  s.initial.isNone && s.any.isEmpty && s.final.isNone

/-- The fragments in order. -/
def toList (s : Substrings) : List Octets :=
  s.initial.toList ++ s.any ++ s.final.toList

end Substrings

/-- An assertion that a matching rule decides: on the attribute `matchType`, on every attribute the
rule applies to, or on one of them inside distinguished names too. -/
structure Extensible where
  matchType : Option String
  rule : Option String
  value : Octets
  dnAttributes : Bool
  /-- The fragments of the value, for rules that take substrings. -/
  substrings : Option Substrings
  deriving DecidableEq, Repr, Inhabited

namespace Extensible

/-- A character of a matching rule, which is an object identifier or a descriptor. -/
def isRuleChar (c : Char) : Bool :=
  c.isAlphanum || c == '.' || c == '-'

/-- Whether an optional text is there and not empty. -/
def isNamed : Option String → Bool
  | some s => !s.isEmpty
  | none => false

/-- Refuses an assertion that names neither an attribute nor a rule, and one whose rule is neither
an object identifier nor a descriptor. -/
def validate (e : Extensible) : Except NodeFault Unit :=
  if isNamed e.matchType || isNamed e.rule then
    match e.rule with
    | some rule => if rule.toList.all isRuleChar then .ok () else .error (.badRule rule)
    | none => .ok ()
  else .error .noTarget

/-- The assertion without its substring view. -/
def withoutView (e : Extensible) : Extensible :=
  { e with substrings := none }

end Extensible

/-- What a leaf asserts of a record. -/
inductive Assertion where
  /-- Nothing: the placeholder that no record matches. -/
  | empty
  /-- An attribute value compares so with the assertion value. -/
  | comparison (op : Comparison) (name : String) (value : Octets)
  /-- The attribute has a value. -/
  | presence (name : String)
  /-- An attribute value consists of the fragments and what lies between them. -/
  | substring (name : String) (fragments : Substrings)
  | extensible (e : Extensible)
  deriving DecidableEq, Repr, Inhabited

namespace Assertion

/-- The kind of the leaf that makes this assertion. -/
def kind : Assertion → Kind
  | .empty => .empty
  | .comparison op _ _ => .comparison op
  | .presence _ => .presence
  | .substring _ _ => .substring
  | .extensible _ => .extensible

/-- The attribute that the assertion is about, if it names one. -/
def attribute? : Assertion → Option String
  | .empty => none
  | .comparison _ name _ => some name
  | .presence name => some name
  | .substring name _ => some name
  | .extensible e => e.matchType

/-- The assertion without the derived substring view. -/
def withoutView : Assertion → Assertion
  | .extensible e => .extensible e.withoutView
  | a => a

end Assertion

/-- A search filter: a tree whose inner nodes combine filters and whose leaves assert something of
one attribute. -/
inductive Filter where
  | leaf (assertion : Assertion)
  | negation (filter : Filter)
  | junction (c : Connective) (clauses : List Filter)
  deriving Repr, Inhabited

namespace Filter

/-- The filter that no record matches. -/
abbrev empty : Filter := leaf .empty

/-- The filter that holds where all clauses do. -/
@[match_pattern] abbrev and (clauses : List Filter) : Filter := junction .and clauses

/-- The filter that holds where a clause does. -/
@[match_pattern] abbrev or (clauses : List Filter) : Filter := junction .or clauses

/-- The filter that compares the values of an attribute with one value. -/
abbrev comparison (op : Comparison) (name : String) (value : Octets) : Filter :=
  leaf (.comparison op name value)

/-- The filter that finds fragments in the values of an attribute. -/
abbrev substring (name : String) (fragments : Substrings) : Filter :=
  leaf (.substring name fragments)

/-- The filter that asks for an attribute to be there. The attribute needs a name. -/
def presence (name : String) : Except FilterError Filter :=
  if name.isEmpty then .error (.invalid .unnamedPresence) else .ok (leaf (.presence name))

/-- The filter that leaves an assertion to a matching rule. -/
def extensible (e : Extensible) : Except FilterError Filter :=
  match e.validate with
  | .ok () => .ok (leaf (.extensible e))
  | .error fault => .error (.invalid fault)

/-- The kind of a filter. -/
def kind : Filter → Kind
  | leaf a => a.kind
  | negation _ => .negation
  | junction c _ => .junction c

/-- The tag of the element that encodes a filter. -/
def tag (f : Filter) : UInt8 :=
  f.kind.tag

/-- The attribute that a leaf is about, if it names one. -/
def attribute? : Filter → Option String
  | leaf a => a.attribute?
  | negation _ | junction _ _ => none

/-- The filters directly below a filter. -/
def clauses : Filter → List Filter
  | leaf _ => []
  | negation f => [f]
  | junction _ fs => fs

/-- Adds a clause behind the clauses of a junction. -/
def addClause (f clause : Filter) : Except FilterError Filter :=
  match f with
  | junction c fs => .ok (junction c (fs ++ [clause]))
  | _ => .error (.invalid (.takesNoClauses f.kind))

/-- Replaces the filter that a negation negates. -/
def setNegated (f negated : Filter) : Except FilterError Filter :=
  match f with
  | negation _ => .ok (negation negated)
  | _ => .error (.invalid (.negatesNothing f.kind))

mutual

/-- Whether two filters agree in everything but the derived substring views. -/
def beq : Filter → Filter → Bool
  | leaf a, leaf b => a.withoutView == b.withoutView
  | negation f, negation g => beq f g
  | junction c fs, junction d gs => c == d && beqAll fs gs
  | _, _ => false

/-- Whether two lists of filters agree one by one. -/
def beqAll : List Filter → List Filter → Bool
  | [], [] => true
  | f :: fs, g :: gs => beq f g && beqAll fs gs
  | _, _ => false

end

instance : BEq Filter := ⟨beq⟩

end Filter

end SearchFilter
