import Mathlib.Data.List.Forall2
import Mathlib.Tactic.Common
import SearchFilter.Proofs.Evaluate.Inquiry
import SearchFilter.Proofs.Filter.Rewriting

namespace SearchFilter.Filter

/-- Whether two filters have the same answer, or fail in the same way, for every matcher. -/
def SameAnswers (f g : Filter) : Prop :=
  ∀ (m : Matcher) (r : Record) (strict : Bool), f.holdsWith m r strict = g.holdsWith m r strict

/-- Whether they do for every matcher that remembers what it was asked. What it remembers in the end is
not compared. -/
def SameResults (f g : Filter) : Prop :=
  ∀ (σ : Type) (ask : Question → StateM σ Answer) (r : Record) (strict : Bool) (s : σ),
    (f.evaluateIn ask r strict s).1 = (g.evaluateIn ask r strict s).1

/-- A matcher is one that remembers all it was asked and makes no use of it. -/
theorem SameResults.sameAnswers {f g : Filter} (h : f.SameResults g) : f.SameAnswers g := by
  intro m r strict
  have hlogged := h _ (logged m r strict) r strict []
  rwa [evaluateIn_logged, evaluateIn_logged] at hlogged

/-- The answer of a junction depends on nothing but the answers of its clauses. -/
theorem evaluateAll_fst_congr {m : Matcher} {r : Record} {strict : Bool} {fs gs : List Filter}
    (h : List.Forall₂ (fun f g => f.holdsWith m r strict = g.holdsWith m r strict) fs gs)
    (c : Connective) : (evaluateAll m r strict c fs).1 = (evaluateAll m r strict c gs).1 := by
  induction h with
  | nil => rfl
  | @cons f g fs gs hfirst _ ih =>
    by_cases hf : f.holdsWith m r strict = .ok c.neutral
    · rw [evaluateAll_cons_of_neutral hf, evaluateAll_cons_of_neutral (hfirst ▸ hf)]
      exact ih
    · rw [evaluateAll_cons_of_ne hf, evaluateAll_cons_of_ne (hfirst ▸ hf)]
      exact hfirst

/-- The answer of a node depends on those of its clauses alone, so clauses may be replaced by others
with the same answers. -/
theorem isCongruence_sameAnswers : IsCongruence SameAnswers where
  trans hfg hgh m r strict := (hfg m r strict).trans (hgh m r strict)
  negation hfg m r strict := congrArg (fun answer : Answer => answer.map (!·)) (hfg m r strict)
  junction hfg m r strict := evaluateAll_fst_congr (hfg.imp fun _ _ h => h m r strict) _

/-- Filters have the same results for all matchers just if they put the same questions. -/
theorem sameResults_iff {f g : Filter} :
    f.SameResults g ↔ ∀ r strict, f.inquiry r strict = g.inquiry r strict := by
  constructor
  · intro h r strict
    apply Inquiry.eq_of_results_eq
    intro σ ask s
    rw [← evaluateIn_eq_run, ← evaluateIn_eq_run]
    exact h σ ask r strict s
  · intro h σ ask r strict s
    rw [evaluateIn_eq_run, evaluateIn_eq_run, h]

theorem inquiryAll_congr {r : Record} {strict : Bool} {fs gs : List Filter}
    (h : List.Forall₂ (fun f g => f.inquiry r strict = g.inquiry r strict) fs gs) (c : Connective) :
    inquiryAll r strict c fs = inquiryAll r strict c gs := by
  induction h with
  | nil => rfl
  | cons hfirst _ ih => rw [inquiryAll, inquiryAll, hfirst, ih]

/-- The questions of a node are put together from those of its clauses, so clauses may be replaced
by others with the same results. -/
theorem isCongruence_sameResults : IsCongruence SameResults where
  trans hfg hgh σ ask r strict s := (hfg σ ask r strict s).trans (hgh σ ask r strict s)
  negation {f g} hfg := by
    rw [sameResults_iff] at hfg ⊢
    intro r strict
    rw [inquiry, inquiry, hfg]
  junction {c fs gs} hfg := by
    rw [sameResults_iff]
    intro r strict
    exact inquiryAll_congr (hfg.imp fun _ _ h => sameResults_iff.1 h r strict) c

/-- A rewriting that puts a node with the same answers in the place of each node it is shown prunes
nothing, if there is a clause in every junction, and gives a filter with the same answers. It may change
kinds and put junctions without clauses there. With matchers that remember what they were asked it is the
same. -/
theorem rewriting_keeps_meaning {f : Filter} {g : Filter → Option Filter} (hf : f.Populated) :
    ((∀ node ∈ shown g f, ∃ node', g node = some node' ∧ node'.SameAnswers node) →
        ∃ f', f.rewrite g = some f' ∧ f'.SameAnswers f) ∧
      ((∀ node ∈ shown g f, ∃ node', g node = some node' ∧ node'.SameResults node) →
        ∃ f', f.rewrite g = some f' ∧ f'.SameResults f) :=
  ⟨exists_rewrite_of_congruence isCongruence_sameAnswers hf,
    exists_rewrite_of_congruence isCongruence_sameResults hf⟩

/-- Puts a junction without clauses in the place of the empty assertion, and a clause in the place of a
junction that has no other. -/
def simplified : Filter → Filter
  | leaf .empty => .or []
  | junction _ [f] => f
  | f => f

theorem simplified_sameResults (f : Filter) : (simplified f).SameResults f := by
  rw [sameResults_iff]
  intro r strict
  unfold simplified
  split
  · rfl
  · next c f =>
    have hclause : (fun b => if b = c.neutral then inquiryAll r strict c [] else .settled (.ok b)) =
        fun b => .settled (.ok b) := by
      funext b
      split_ifs with hb
      · rw [inquiryAll, hb]
      · rfl
    rw [inquiry, inquiryAll, hclause, Inquiry.andThen_settled]
  · rfl

/-- A filter that holds just if the answer about `named` is yes. -/
def roundabout : Filter :=
  .and [.or [named], negation (leaf .empty)]

theorem roundabout_populated : roundabout.Populated := by
  apply Populated.junction (by simp)
  intro f hf
  simp only [List.mem_cons, List.not_mem_nil, or_false] at hf
  obtain rfl | rfl := hf
  · apply Populated.junction (by simp)
    intro f hf
    rw [List.mem_singleton.1 hf]
    exact .leaf _
  · exact .negation (.leaf _)

/-- An emptied junction is made on the way, and it is not pruned. -/
theorem roundabout_simplified :
    roundabout.rewrite (some ∘ simplified) = some (.and [named, negation (.or [])]) ∧
      (Filter.and [named, negation (.or [])]).SameAnswers roundabout ∧
      (Filter.and [named, negation (.or [])]).SameResults roundabout := by
  have hrewrite : roundabout.rewrite (some ∘ simplified) = some (.and [named, negation (.or [])]) := rfl
  obtain ⟨hpure, hmindful⟩ := rewriting_keeps_meaning (g := some ∘ simplified) roundabout_populated
  obtain ⟨f, hf, hanswers⟩ := hpure fun node _ =>
    ⟨simplified node, rfl, (simplified_sameResults node).sameAnswers⟩
  obtain ⟨f', hf', hresults⟩ := hmindful fun node _ =>
    ⟨simplified node, rfl, simplified_sameResults node⟩
  obtain rfl := Option.some.inj (hf.symm.trans hrewrite)
  obtain rfl := Option.some.inj (hf'.symm.trans hrewrite)
  exact ⟨hrewrite, hanswers, hresults⟩

end SearchFilter.Filter
