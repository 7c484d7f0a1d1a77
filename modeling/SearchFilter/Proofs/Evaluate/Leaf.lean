import Mathlib.Tactic.Common
import SearchFilter.Evaluate

namespace SearchFilter

/-- The single values of an attribute. -/
def AttributeValue.scalars : AttributeValue → List Scalar
  | null => []
  | one value => [value]
  | many values => values

theorem AttributeValue.test_false (p : Scalar → Bool) (value : AttributeValue) :
    value.test p false = value.scalars.any p := by
  cases value <;> simp [test, scalars]

/-- The single values that a name stands for. -/
def Record.valuesOf (r : Record) (name : String) (strict : Bool) : List Scalar :=
  match r.get? name strict with
  | some value => value.scalars
  | none => []

/-- A name that is not there has no values, so no test passes. -/
theorem Record.someValue_eq (r : Record) (name : String) (strict : Bool) (p : Scalar → Bool) :
    r.someValue name strict p = (r.valuesOf name strict).any p := by
  rw [someValue, valuesOf]
  cases r.get? name strict with
  | none => rfl
  | some value => exact value.test_false p

/-- Whether a single value passes a comparison with an assertion value. Without a schema no value is
known to be alike. -/
def Comparison.Accepts (assertion : Octets) (s : Scalar) : Comparison → Prop
  | equal => s.octets = assertion
  | atLeast => s.order assertion ≠ .lt
  | atMost => s.order assertion ≠ .gt
  | approximate => False

namespace Filter

variable {r : Record} {name : String} {strict : Bool}

/-- A comparison holds if one of the single values passes it. -/
theorem holds_comparison_iff {op : Comparison} {assertion : Octets} :
    (comparison op name assertion).holds r strict = .ok true ↔
      ∃ s ∈ r.valuesOf name strict, op.Accepts assertion s := by
  rw [holds, holdsWith, evaluate]
  cases op <;>
    simp [Assertion.evaluate, Record.someValue_eq, Comparison.Accepts, Matcher.unsupported]

/-- An attribute is present if it is there as something, be it as a list of no values. -/
theorem holds_presence_iff :
    (leaf (.presence name)).holds r strict = .ok true ↔
      ∃ value, r.get? name strict = some value ∧ value ≠ .null := by
  have hnull (value : AttributeValue) : value.isNull = false ↔ value ≠ .null := by
    cases value <;> simp [AttributeValue.isNull]
  rw [holds, holdsWith, evaluate, Assertion.evaluate]
  simp [Option.any_eq_true, hnull]

/-- An attribute with a single value is present. -/
theorem holds_presence_of_mem {s : Scalar} (hs : s ∈ r.valuesOf name strict) :
    (leaf (.presence name)).holds r strict = .ok true := by
  rw [Record.valuesOf] at hs
  rw [holds_presence_iff]
  cases hget : r.get? name strict with
  | none =>
    rw [hget] at hs
    cases hs
  | some value =>
    refine ⟨value, rfl, ?_⟩
    rintro rfl
    rw [hget] at hs
    cases hs

/-- A substring assertion needs its pattern only where the attribute is there. -/
theorem holds_substring_of_none {fragments : Substrings} (h : r.get? name strict = none) :
    (substring name fragments).holds r strict = .ok false := by
  rw [holds, holdsWith, evaluate, Assertion.evaluate, h]

/-- An assertion whose pattern is not too large holds if one of the single values fits the
pattern. -/
theorem holds_substring_of_compile {fragments : Substrings} {p : Pattern}
    (h : Pattern.compile fragments = .ok p) :
    (substring name fragments).holds r strict =
      .ok ((r.valuesOf name strict).any fun s => p.fits s.chars) := by
  rw [holds, holdsWith, evaluate, Assertion.evaluate, Record.valuesOf]
  cases r.get? name strict with
  | none => rfl
  | some value =>
    rw [h]
    exact congrArg Except.ok (value.test_false _)

theorem exists_compile_of_holds_substring {fragments : Substrings}
    (h : (substring name fragments).holds r strict = .ok true) :
    ∃ p, Pattern.compile fragments = .ok p := by
  cases hget : r.get? name strict with
  | none =>
    rw [holds_substring_of_none hget] at h
    cases h
  | some value =>
    rw [holds, holdsWith, evaluate, Assertion.evaluate, hget] at h
    cases hcompile : Pattern.compile fragments with
    | ok p => exact ⟨p, rfl⟩
    | error e =>
      rw [hcompile] at h
      cases h

end Filter

end SearchFilter
