import SearchFilter.Pattern
import SearchFilter.Record.Basic

namespace SearchFilter

/-- An answer, or why there is none. -/
abbrev Answer := Except FilterError Bool

/-- How the assertions that depend on the schema are decided. -/
structure Matcher where
  approximate : (name : String) → (value : Octets) → Record → (strict : Bool) → Answer
  extensible : Extensible → Record → (strict : Bool) → Answer

namespace Matcher

/-- The matcher that knows no schema and decides nothing. -/
def unsupported : Matcher where
  approximate := fun _ _ _ _ => .error (.notImplemented .approximate)
  extensible := fun _ _ _ => .error (.notImplemented .extensible)

end Matcher

/-- A question put to a matcher. -/
inductive Question where
  | approximate (name : String) (value : Octets)
  | extensible (e : Extensible)
  deriving DecidableEq, Repr

/-- The truth value that does not decide a junction. Without clauses it is the answer. -/
def Connective.neutral : Connective → Bool
  | .and => true
  | .or => false

/-- Whether a value of the record passes a test. -/
def Record.someValue (r : Record) (name : String) (strict : Bool) (p : Scalar → Bool) : Bool :=
  match r.get? name strict with
  | some value => value.test p false
  | none => false

namespace Assertion

/-- Evaluates a leaf. Equality compares octets, so a number written differently is not equal. A
substring assertion fails where its pattern is too large, but only if the attribute is there. -/
def evaluate (m : Matcher) (r : Record) (strict : Bool) : Assertion → Answer × List Question
  | .empty => (.ok false, [])
  | .comparison .equal name value =>
    (.ok (r.someValue name strict (fun s => s.octets == value)), [])
  | .comparison .atLeast name value =>
    (.ok (r.someValue name strict (fun s => s.order value != .lt)), [])
  | .comparison .atMost name value =>
    (.ok (r.someValue name strict (fun s => s.order value != .gt)), [])
  | .comparison .approximate name value =>
    (m.approximate name value r strict, [.approximate name value])
  | .presence name => (.ok ((r.get? name strict).any (!·.isNull)), [])
  | .substring name fragments =>
    match r.get? name strict with
    | none => (.ok false, [])
    | some value =>
      ((Pattern.compile fragments).map (fun p => value.test (fun s => p.fits s.chars) false), [])
  | .extensible e => (m.extensible e r strict, [.extensible e])

end Assertion

namespace Filter

mutual

/-- Evaluates a filter. Approximate and extensible assertions depend on the schema and are left to
the matcher. Gives the answer and the questions that the matcher was asked, in order. -/
def evaluate (m : Matcher) (r : Record) (strict : Bool) : Filter → Answer × List Question
  | leaf a => a.evaluate m r strict
  | negation f =>
    let (answer, asked) := evaluate m r strict f
    (answer.map (!·), asked)
  | junction c fs => evaluateAll m r strict c fs

/-- Evaluates the clauses of a junction from left to right, up to the first one that decides it or
fails. -/
def evaluateAll (m : Matcher) (r : Record) (strict : Bool) (c : Connective) :
    List Filter → Answer × List Question
  | [] => (.ok c.neutral, [])
  | f :: fs =>
    match evaluate m r strict f with
    | (.ok b, asked) =>
      if b = c.neutral then
        let (answer, more) := evaluateAll m r strict c fs
        (answer, asked ++ more)
      else (.ok b, asked)
    | (.error e, asked) => (.error e, asked)

end

/-- Whether a record matches a filter, with the help of a matcher. With `strict` attribute names
have to agree in case; values always have to. -/
def holdsWith (f : Filter) (m : Matcher) (r : Record) (strict : Bool) : Answer :=
  (f.evaluate m r strict).1

/-- Whether a record matches a filter that does not depend on the schema. -/
def holds (f : Filter) (r : Record) (strict : Bool) : Answer :=
  f.holdsWith .unsupported r strict

end Filter

end SearchFilter
