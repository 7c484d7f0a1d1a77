import Mathlib.Tactic.Common
import SearchFilter.Filter.Encode
import SearchFilter.Filter.Rewrite

namespace SearchFilter

/-- The assertions that a presence test or a matching rule can be asked for: one that names an
attribute, or that names an attribute or a rule and whose rule is an object identifier or a
descriptor. -/
def Assertion.Valid : Assertion → Prop
  | .presence name => name ≠ ""
  | .extensible e =>
    ((∃ name, e.matchType = some name ∧ name ≠ "") ∨ ∃ rule, e.rule = some rule ∧ rule ≠ "") ∧
      ∀ rule, e.rule = some rule → ∀ c ∈ rule.toList, Extensible.isRuleChar c = true
  | _ => True

theorem Extensible.isNamed_iff {text : Option String} :
    isNamed text = true ↔ ∃ s, text = some s ∧ s ≠ "" := by
  cases text <;> simp [isNamed]

/-- The check that is made of an extensible assertion passes those that can be asked for. -/
theorem Extensible.validate_eq_ok_iff {e : Extensible} :
    e.validate = .ok () ↔ (Assertion.extensible e).Valid := by
  simp only [Assertion.Valid, ← isNamed_iff, ← Bool.or_eq_true, validate]
  cases isNamed e.matchType || isNamed e.rule with
  | false => simp
  | true =>
    cases hrule : e.rule with
    | none => simp
    | some rule => simp

instance Assertion.decidableValid : (a : Assertion) → Decidable a.Valid
  | .presence name => inferInstanceAs (Decidable (name ≠ ""))
  | .extensible _ => decidable_of_iff _ Extensible.validate_eq_ok_iff
  | .empty | .comparison .. | .substring .. => inferInstanceAs (Decidable True)

namespace Filter

/-- Induction over a filter, where the clauses of a junction all have the property already. -/
@[elab_as_elim, induction_eliminator]
theorem induction {motive : Filter → Prop} (leaf : ∀ a, motive (leaf a))
    (negation : ∀ f, motive f → motive (negation f))
    (junction : ∀ c fs, (∀ f ∈ fs, motive f) → motive (junction c fs)) (f : Filter) : motive f :=
  match f with
  | .leaf a => leaf a
  | .negation f => negation f (induction leaf negation junction f)
  | .junction c fs => junction c fs fun f _ => induction leaf negation junction f

mutual

/-- The assertions of a filter's leaves, from left to right. -/
def leaves : Filter → List Assertion
  | leaf a => [a]
  | negation f => leaves f
  | junction _ fs => leavesAll fs

/-- The assertions of the leaves of some filters. -/
def leavesAll : List Filter → List Assertion
  | [] => []
  | f :: fs => leaves f ++ leavesAll fs

end

mutual

/-- The filter without the derived substring views. -/
def withoutView : Filter → Filter
  | leaf a => leaf a.withoutView
  | negation f => negation (withoutView f)
  | junction c fs => junction c (withoutViewAll fs)

/-- Filters without the derived substring views. -/
def withoutViewAll : List Filter → List Filter
  | [] => []
  | f :: fs => withoutView f :: withoutViewAll fs

end

/-- Whether every leaf makes an assertion that can be asked for. -/
def Valid (f : Filter) : Prop :=
  ∀ a ∈ f.leaves, a.Valid

instance decidableValid (f : Filter) : Decidable f.Valid :=
  inferInstanceAs (Decidable (∀ a ∈ f.leaves, a.Valid))

theorem leavesAll_eq (fs : List Filter) : leavesAll fs = fs.flatMap leaves := by
  induction fs with
  | nil => rfl
  | cons f fs ih => rw [leavesAll, ih, List.flatMap_cons]

theorem mem_leaves_junction {c : Connective} {fs : List Filter} {a : Assertion} :
    a ∈ (junction c fs).leaves ↔ ∃ f ∈ fs, a ∈ f.leaves := by
  rw [leaves, leavesAll_eq, List.mem_flatMap]

/-- What holds of every leaf of a junction holds of every leaf of its clauses. -/
theorem forall_mem_leaves_junction {c : Connective} {fs : List Filter} {p : Assertion → Prop} :
    (∀ a ∈ (junction c fs).leaves, p a) ↔ ∀ f ∈ fs, ∀ a ∈ f.leaves, p a := by
  constructor
  · intro h f hf a ha
    exact h a (mem_leaves_junction.2 ⟨f, hf, ha⟩)
  · intro h a ha
    obtain ⟨f, hf, ha⟩ := mem_leaves_junction.1 ha
    exact h f hf a ha

theorem visitsAll_eq (fs : List Filter) : visitsAll fs = fs.flatMap visits := by
  induction fs with
  | nil => rfl
  | cons f fs ih => rw [visitsAll, ih, List.flatMap_cons]

theorem withoutViewAll_eq (fs : List Filter) : withoutViewAll fs = fs.map withoutView := by
  induction fs with
  | nil => rfl
  | cons f fs ih => rw [withoutViewAll, ih, List.map_cons]

theorem toBerAll_eq (fs : List Filter) : toBerAll fs = fs.flatMap toBer := by
  induction fs with
  | nil => rfl
  | cons f fs ih => rw [toBerAll, ih, List.flatMap_cons]

/-- Some filters are no deeper than the deepest of them. -/
theorem depthAll_le_iff {fs : List Filter} {n : Nat} : depthAll fs ≤ n ↔ ∀ f ∈ fs, f.depth ≤ n := by
  induction fs with
  | nil => simp [depthAll]
  | cons f fs ih => simp only [depthAll, Nat.max_le, ih, List.forall_mem_cons]

theorem depth_pos (f : Filter) : 0 < f.depth := by
  cases f with
  | leaf a => exact Nat.one_pos
  | _ => exact Nat.succ_pos _

theorem valid_leaf {a : Assertion} : (leaf a).Valid ↔ a.Valid := by
  simp [Valid, leaves]

theorem valid_negation {f : Filter} : (negation f).Valid ↔ f.Valid := Iff.rfl

theorem valid_junction {c : Connective} {fs : List Filter} :
    (junction c fs).Valid ↔ ∀ f ∈ fs, f.Valid :=
  forall_mem_leaves_junction

/-- Filters are equal where they agree in everything but the derived substring views. -/
theorem beq_iff {f g : Filter} : (f == g) = true ↔ f.withoutView = g.withoutView := by
  change beq f g = true ↔ _
  induction f generalizing g with
  | leaf a => cases g <;> simp [beq, withoutView]
  | negation f ih => cases g <;> simp [beq, withoutView, ih]
  | junction c fs ih =>
    cases g with
    | junction d gs =>
      have hall : beqAll fs gs = true ↔ withoutViewAll fs = withoutViewAll gs := by
        clear * - ih
        induction fs generalizing gs with
        | nil => cases gs <;> simp [beqAll, withoutViewAll]
        | cons f fs ihs =>
          cases gs with
          | nil => simp [beqAll, withoutViewAll]
          | cons g gs =>
            simp only [beqAll, withoutViewAll, Bool.and_eq_true, List.cons.injEq]
            rw [ih f List.mem_cons_self, ihs (fun f hf => ih f (List.mem_cons_of_mem _ hf))]
      simp [beq, withoutView, hall]
    | _ => simp [beq, withoutView]

theorem Assertion.kind_withoutView (a : Assertion) : a.withoutView.kind = a.kind := by
  cases a <;> rfl

theorem kind_withoutView (f : Filter) : f.withoutView.kind = f.kind := by
  cases f with
  | leaf a => exact Assertion.kind_withoutView a
  | _ => rfl

theorem kind_eq_of_beq {f g : Filter} (h : (f == g) = true) : f.kind = g.kind := by
  rw [← kind_withoutView f, ← kind_withoutView g, beq_iff.1 h]

theorem Assertion.valid_withoutView {a : Assertion} : a.withoutView.Valid ↔ a.Valid := by
  cases a <;> rfl

theorem valid_withoutView {f : Filter} : f.withoutView.Valid ↔ f.Valid := by
  induction f with
  | leaf a => rw [withoutView, valid_leaf, valid_leaf, Assertion.valid_withoutView]
  | negation f ih => exact ih
  | junction c fs ih =>
    simp only [withoutView, withoutViewAll_eq, valid_junction, List.forall_mem_map]
    exact forall₂_congr ih

theorem depth_withoutView (f : Filter) : f.withoutView.depth = f.depth := by
  induction f with
  | leaf a => rfl
  | negation f ih => rw [withoutView, depth, depth, ih]
  | junction c fs ih =>
    have hclauses : depthAll (withoutViewAll fs) = depthAll fs := by
      clear * - ih
      induction fs with
      | nil => rfl
      | cons f fs ihs =>
        rw [withoutViewAll, depthAll, depthAll, ih f List.mem_cons_self,
          ihs fun g hg => ih g (List.mem_cons_of_mem _ hg)]
    rw [withoutView, depth, depth, hclauses]

/-- The views are not written. -/
theorem toBer_withoutView (f : Filter) : f.withoutView.toBer = f.toBer := by
  induction f with
  | leaf a => cases a <;> rfl
  | negation f ih => rw [withoutView, toBer, toBer, ih]
  | junction c fs ih =>
    have hclauses : (fs.map withoutView).map toBer = fs.map toBer := by
      rw [List.map_map]
      exact List.map_congr_left ih
    rw [withoutView, toBer, toBer, toBerAll_eq, toBerAll_eq, withoutViewAll_eq, List.flatMap_def, hclauses,
      List.flatMap_def]

theorem withoutView_withoutView (f : Filter) : f.withoutView.withoutView = f.withoutView := by
  induction f with
  | leaf a => cases a <;> rfl
  | negation f ih => rw [withoutView, withoutView, ih]
  | junction c fs ih =>
    simp only [withoutView, withoutViewAll_eq, List.map_map]
    exact congrArg _ (List.map_congr_left ih)

end Filter

end SearchFilter
