import Mathlib
import SearchFilter.Proofs.Evaluate.Junction
import SearchFilter.Proofs.Record.Lookup

namespace SearchFilter

namespace Record

variable {r : Record} {name : String} {value : AttributeValue}

/-- What an exact look-up finds is found without regard to case, too. -/
theorem get?_false_of_get?_true (h : r.get? name true = some value) : r.get? name false = some value := by
  rw [get?_true] at h
  exact get?_of_getExact? h false

/-- Case makes no difference for a name that is there, nor for one that is not there in any case. -/
theorem get?_false_eq_get?_true (h : name ∈ Entry.names r.entries ∨
    ∀ key ∈ Entry.names r.entries, sameIgnoringCase key name = false) :
    r.get? name false = r.get? name true := by
  cases hstrict : r.get? name true with
  | some value => exact get?_false_of_get?_true hstrict
  | none =>
    rw [get?_true, getExact?_eq_none_iff] at hstrict
    exact get?_false_eq_none_iff.2 (h.resolve_left hstrict)

end Record

namespace Assertion

/-- The name that a leaf looks up in the record itself. -/
def lookedUp? : Assertion → Option String
  | .comparison .approximate _ _ | .empty | .extensible _ => none
  | .comparison _ name _ | .presence name | .substring name _ => some name

variable {a : Assertion} {m : Matcher} {r : Record} {strict strict' : Bool}

/-- A leaf sees no more of the record and the case mode than what its name stands for, and what the
matcher says. -/
theorem evaluate_eq_of_get?_eq
    (hget : ∀ name, a.lookedUp? = some name → r.get? name strict = r.get? name strict')
    (hanswer : ∀ q, a.question? = some q → m.answer r strict q = m.answer r strict' q) :
    a.evaluate m r strict = a.evaluate m r strict' := by
  cases a with
  | empty => rfl
  | comparison op name value =>
    cases op with
    | approximate =>
      have h := hanswer _ rfl
      rw [Matcher.answer, Matcher.answer] at h
      rw [evaluate, evaluate, h]
    | _ => simp only [evaluate, Record.someValue, hget name rfl]
  | presence name => simp only [evaluate, hget name rfl]
  | substring name fragments => simp only [evaluate, hget name rfl]
  | extensible e =>
    have h := hanswer _ rfl
    rw [Matcher.answer, Matcher.answer] at h
    rw [evaluate, evaluate, h]

/-- A leaf about a name that is not there is false, and asks nothing. -/
theorem evaluate_of_get?_none {name : String} (hname : a.lookedUp? = some name)
    (hget : r.get? name strict = none) : a.evaluate m r strict = (.ok false, []) := by
  cases a with
  | empty | extensible e => cases hname
  | comparison op key value =>
    cases op with
    | approximate => cases hname
    | _ =>
      obtain rfl := Option.some.inj hname
      simp only [evaluate, Record.someValue, hget]
  | presence key | substring key fragments =>
    obtain rfl := Option.some.inj hname
    simp only [evaluate, hget, Option.any_none]

/-- A leaf that holds without a matcher has found its attribute. -/
theorem exists_value_of_evaluate (hfree : a.question? = none)
    (h : (a.evaluate m r strict).1 = .ok true) :
    ∃ name value, a.lookedUp? = some name ∧ r.get? name strict = some value := by
  cases hname : a.lookedUp? with
  | none =>
    cases a with
    | empty => cases h
    | comparison op name value =>
      cases op with
      | approximate => cases hfree
      | _ => cases hname
    | extensible e => cases hfree
    | presence name | substring name fragments => cases hname
  | some name =>
    cases hget : r.get? name strict with
    | none =>
      rw [evaluate_of_get?_none hname hget] at h
      cases h
    | some value => exact ⟨name, value, rfl, hget⟩

end Assertion

namespace Filter

variable {m : Matcher} {r : Record} {c : Connective} {f : Filter} {fs : List Filter}

/-- Filters without a negation. -/
inductive NegationFree : Filter → Prop where
  | leaf (a : Assertion) : NegationFree (leaf a)
  | junction (c : Connective) {fs : List Filter} (h : ∀ f ∈ fs, NegationFree f) :
    NegationFree (junction c fs)

/-- A leaf that is settled by the record and holds has found its name, which is found as well
without regard to case. -/
theorem holdsWith_relaxed_leaf {a : Assertion} (hfree : a.question? = none)
    (h : (leaf a).holdsWith m r true = .ok true) : (leaf a).holdsWith m r false = .ok true := by
  rw [holdsWith, evaluate] at h ⊢
  obtain ⟨name, value, hname, hget⟩ := a.exists_value_of_evaluate hfree h
  have hsame : a.evaluate m r false = a.evaluate m r true := by
    apply Assertion.evaluate_eq_of_get?_eq
    · intro name' hname'
      obtain rfl : name = name' := Option.some.inj (hname.symm.trans hname')
      rw [hget, Record.get?_false_of_get?_true hget]
    · intro q hq
      rw [hfree] at hq
      cases hq
  rw [hsame, h]

/-- What holds with regard to case holds without. -/
theorem holdsWith_relaxed (hnegation : f.NegationFree) (hfree : f.IsSchemaFree)
    (hcompiles : f.Compiles) (h : f.holdsWith m r true = .ok true) : f.holdsWith m r false = .ok true := by
  induction hnegation with
  | leaf a => exact holdsWith_relaxed_leaf (isSchemaFree_leaf.1 hfree) h
  | junction c _ ih =>
    have hclause {f : Filter} (hf : f ∈ _) (htrue : f.holdsWith m r true = .ok true) :
        f.holdsWith m r false = .ok true := ih f hf (hfree.clause hf) (hcompiles.clause hf) htrue
    obtain ⟨b, hb⟩ := exists_holdsWith_eq_ok hfree hcompiles m r false
    rw [hb]
    -- Whichever way `b` comes about, a clause that holds in both modes excludes that it is false.
    rcases clauses_of_holdsWith_junction h with ⟨hneutral, hall⟩ | ⟨hne, f, hf, htrue⟩
    · rcases clauses_of_holdsWith_junction hb with ⟨hb, _⟩ | ⟨_, g, hg, hdecides⟩
      · rw [hb, ← hneutral]
      · exact hdecides.symm.trans (hclause hg (hall g hg))
    · rcases clauses_of_holdsWith_junction hb with ⟨_, hall⟩ | ⟨hb, _⟩
      · exact (hall f hf).symm.trans (hclause hf htrue)
      · rw [Bool.eq_not_of_ne hb, Bool.eq_not_of_ne hne]

/-- Whether each name that a leaf looks up is there exactly, or not even in another case. -/
def CaseSettled (r : Record) (f : Filter) : Prop :=
  ∀ a ∈ f.leaves, ∀ name ∈ a.lookedUp?, name ∈ Entry.names r.entries ∨
    ∀ key ∈ Entry.names r.entries, Record.sameIgnoringCase key name = false

instance decidableCaseSettled (r : Record) (f : Filter) : Decidable (f.CaseSettled r) :=
  inferInstanceAs (Decidable (∀ a ∈ f.leaves, ∀ name ∈ a.lookedUp?, _))

theorem evaluateAll_congr {strict strict' : Bool}
    (h : ∀ f ∈ fs, f.evaluate m r strict = f.evaluate m r strict') :
    evaluateAll m r strict c fs = evaluateAll m r strict' c fs := by
  induction fs with
  | nil => rfl
  | cons f fs ih =>
    rw [List.forall_mem_cons] at h
    rw [evaluateAll, evaluateAll, h.1, ih h.2]

/-- Where no name depends on case, neither does an evaluation, with its answer or failure and with its
questions. -/
theorem evaluate_eq_of_caseSettled (hsettled : f.CaseSettled r)
    (hmatcher : ∀ q, m.answer r true q = m.answer r false q) :
    f.evaluate m r true = f.evaluate m r false := by
  induction f with
  | leaf a =>
    rw [evaluate, evaluate]
    refine Assertion.evaluate_eq_of_get?_eq (fun name hname => ?_) fun q _ => hmatcher q
    exact (Record.get?_false_eq_get?_true (hsettled a (by simp [leaves]) name hname)).symm
  | negation f ih => rw [evaluate_negation, evaluate_negation, ih hsettled]
  | junction c fs ih =>
    refine evaluateAll_congr fun f hf => ih f hf fun a ha => ?_
    exact hsettled a (mem_leaves_junction.2 ⟨f, hf, ha⟩)

/-- Without regard to case a filter that has no negation, and is settled by the record, holds where it
holds with regard to case. A filter of any kind is answered alike, or fails alike, if every name that it
looks up is in the record exactly or in no case at all. -/
theorem ignoring_case_only_adds_matches (r : Record) (f : Filter) :
    (f.NegationFree → f.IsSchemaFree → f.Compiles → f.holds r true = .ok true →
        f.holds r false = .ok true) ∧
      (f.CaseSettled r → f.holds r true = f.holds r false) := by
  refine ⟨holdsWith_relaxed, fun hsettled => ?_⟩
  have hmatcher (q : Question) :
      Matcher.unsupported.answer r true q = Matcher.unsupported.answer r false q := by
    cases q <;> rfl
  exact congrArg Prod.fst (evaluate_eq_of_caseSettled hsettled hmatcher)

/-- A record whose names differ in case, one of them without a value. -/
def casedRecord : Record :=
  .ofList [("CN", .null), ("cn", .many [.text "ab", .bool true]), ("Mail", .one (.text "x"))]

/-- A filter that holds in both modes, though one of its leaves does only without regard to case. -/
def lowerCased : Filter :=
  .and [substring "cn" { initial := some [0x61], any := [[]], final := none },
    .or [leaf (.presence "mail"), comparison .equal "cn" (Utf8.encode "ab")]]

/-- A filter that fails for want of a matcher, behind names that are settled. -/
def settledNames : Filter :=
  negation (.and [leaf (.presence "cn"), negation (leaf (.presence "sn")),
    comparison .approximate "mail" [0x78]])

/-- The first filter holds in both modes. The names in the second are settled, so it fails in both
for want of a matcher. -/
theorem casedRecord_relaxed :
    lowerCased.holds casedRecord true = .ok true ∧ lowerCased.holds casedRecord false = .ok true ∧
      settledNames.CaseSettled casedRecord ∧
      settledNames.holds casedRecord true = .error (.notImplemented .approximate) ∧
      settledNames.holds casedRecord false = .error (.notImplemented .approximate) := by
  have hnegation : lowerCased.NegationFree := by
    refine .junction _ fun f hf => ?_
    rcases List.mem_pair.1 hf with rfl | rfl
    · exact .leaf _
    · refine .junction _ fun g hg => ?_
      rcases List.mem_pair.1 hg with rfl | rfl <;> exact .leaf _
  have hfree : lowerCased.IsSchemaFree := by decide
  have hcompiles : lowerCased.Compiles := by decide
  have hholds : lowerCased.holds casedRecord true = .ok true := by cbv
  have hsettled : settledNames.CaseSettled casedRecord := by decide
  have hfails : settledNames.holds casedRecord true = .error (.notImplemented .approximate) := by rfl
  refine ⟨hholds, ?_, hsettled, hfails, ?_⟩
  · exact (ignoring_case_only_adds_matches casedRecord lowerCased).1 hnegation hfree hcompiles hholds
  · exact ((ignoring_case_only_adds_matches casedRecord settledNames).2 hsettled).symm.trans hfails

end Filter

end SearchFilter
