import Mathlib.Data.List.Forall2
import Mathlib.Tactic.Common
import SearchFilter.Proofs.Evaluate.Junction

namespace SearchFilter.Filter

/-- Whether two filters differ in the order of clauses only, in junctions at any depth. -/
inductive Reordered : Filter → Filter → Prop where
  | leaf (a : Assertion) : Reordered (leaf a) (leaf a)
  | negation {f g : Filter} (h : Reordered f g) : Reordered (negation f) (negation g)
  | junction {c : Connective} {fs gs hs : List Filter} (h : List.Forall₂ Reordered fs gs)
    (hperm : gs.Perm hs) : Reordered (junction c fs) (junction c hs)

variable {m : Matcher} {r : Record} {strict : Bool} {f g : Filter}

theorem exists_mem_left_of_forall₂ {R : Filter → Filter → Prop} {fs gs : List Filter}
    (h : List.Forall₂ R fs gs) (hg : g ∈ gs) : ∃ f ∈ fs, R f g := by
  induction h with
  | nil => cases hg
  | @cons f g' fs gs hfirst _ ih =>
    rcases List.mem_cons.1 hg with rfl | hg
    · exact ⟨f, List.mem_cons_self, hfirst⟩
    · obtain ⟨f, hf, hfg⟩ := ih hg
      exact ⟨f, List.mem_cons_of_mem _ hf, hfg⟩

theorem exists_mem_right_of_forall₂ {R : Filter → Filter → Prop} {fs gs : List Filter}
    (h : List.Forall₂ R fs gs) (hf : f ∈ fs) : ∃ g ∈ gs, R f g := by
  have hflip : List.Forall₂ (flip R) gs fs := List.Forall₂.flip h
  exact exists_mem_left_of_forall₂ hflip hf

/-- Clauses in another order are the same clauses, each reordered. -/
theorem Reordered.clauses {c : Connective} {fs : List Filter} (h : Reordered (.junction c fs) g) :
    ∃ hs, g = .junction c hs ∧ (∀ f ∈ fs, ∃ g ∈ hs, Reordered f g) ∧
      ∀ g ∈ hs, ∃ f ∈ fs, Reordered f g := by
  cases h with
  | @junction _ _ gs hs hpairs hperm =>
    refine ⟨hs, rfl, ?_, ?_⟩
    · intro f hf
      obtain ⟨g, hg, hfg⟩ := exists_mem_right_of_forall₂ hpairs hf
      exact ⟨g, hperm.mem_iff.1 hg, hfg⟩
    · intro g hg
      exact exists_mem_left_of_forall₂ hpairs (hperm.mem_iff.2 hg)

/-- Of two orders that both have an answer, neither answer is the other way round. -/
theorem Reordered.answers_eq {a b : Bool} (h : f.Reordered g) (hf : f.holdsWith m r strict = .ok a)
    (hg : g.holdsWith m r strict = .ok b) : a = b := by
  induction f generalizing g a b with
  | leaf x =>
    cases h
    exact Except.ok.inj (hf.symm.trans hg)
  | negation f ih =>
    cases h with
    | negation h =>
      have hne := ih h (holdsWith_negation_eq_ok_iff.1 hf) (holdsWith_negation_eq_ok_iff.1 hg)
      exact Bool.not_inj hne
  | junction c fs ih =>
    obtain ⟨hs, rfl, hright, hleft⟩ := h.clauses
    -- Where the two answers differ, one of them is that of all clauses and the other that of one.
    rcases clauses_of_holdsWith_junction hf with ⟨ha, hall⟩ | ⟨ha, f, hmem, hdecides⟩
    · rcases clauses_of_holdsWith_junction hg with ⟨hb, _⟩ | ⟨_, g, hmem, hdecides⟩
      · rw [ha, hb]
      · obtain ⟨f, hf, hfg⟩ := hleft g hmem
        exact ih f hf hfg (hall f hf) hdecides
    · rcases clauses_of_holdsWith_junction hg with ⟨_, hall⟩ | ⟨hb, _⟩
      · obtain ⟨g, hg, hfg⟩ := hright f hmem
        exact ih f hmem hfg hdecides (hall g hg)
      · exact (Bool.eq_not_of_ne ha).trans (Bool.eq_not_of_ne hb).symm

/-- Reordering brings in no leaf that was not there. -/
theorem Reordered.mem_leaves {a : Assertion} (h : f.Reordered g) (ha : a ∈ g.leaves) :
    a ∈ f.leaves := by
  induction f generalizing g with
  | leaf x =>
    cases h
    exact ha
  | negation f ih =>
    cases h with
    | negation h => exact ih h ha
  | junction c fs ih =>
    obtain ⟨hs, rfl, _, hleft⟩ := h.clauses
    obtain ⟨g, hg, ha⟩ := mem_leaves_junction.1 ha
    obtain ⟨f, hf, hfg⟩ := hleft g hg
    exact mem_leaves_junction.2 ⟨f, hf, ih f hf hfg ha⟩

/-- The order of clauses never turns an answer into the other one, whatever a matcher says and wherever
evaluation stops. Where no leaf depends on the schema and every pattern compiles, each order has an
answer, so it is the same for all. -/
theorem reordered_filters_agree {f g : Filter} (h : f.Reordered g) :
    (∀ (m : Matcher) (r : Record) (strict a b : Bool), f.holdsWith m r strict = .ok a →
        g.holdsWith m r strict = .ok b → a = b) ∧
      (f.IsSchemaFree → f.Compiles → ∀ (m : Matcher) (r : Record) (strict : Bool),
        ∃ b, f.holdsWith m r strict = .ok b ∧ g.holdsWith m r strict = .ok b) := by
  refine ⟨fun _ _ _ _ _ => h.answers_eq, ?_⟩
  intro hfree hcompiles m r strict
  have hfree' : g.IsSchemaFree := fun a ha => hfree a (h.mem_leaves ha)
  have hcompiles' : g.Compiles := fun a ha => hcompiles a (h.mem_leaves ha)
  obtain ⟨a, ha⟩ := exists_holdsWith_eq_ok hfree hcompiles m r strict
  obtain ⟨b, hb⟩ := exists_holdsWith_eq_ok hfree' hcompiles' m r strict
  have heq := h.answers_eq ha hb
  exact ⟨a, ha, heq ▸ hb⟩

/-- Clauses that need no matcher. -/
def settledClauses : List Filter :=
  [leaf (.presence "mail"), substring "sn" { initial := some [0x62], any := [], final := none }]

/-- A negated junction that puts a question first, though its other clause may decide it. -/
def questionFirst : Filter :=
  negation (.and [comparison .approximate "cn" [0x61], .or settledClauses])

/-- The same filter with the question last, and what the other clause asks for in another order. -/
def questionLast : Filter :=
  negation (.and [.or settledClauses.reverse, comparison .approximate "cn" [0x61]])

theorem reordered_reverse : (Filter.or settledClauses).Reordered (.or settledClauses.reverse) :=
  .junction (.cons (.leaf _) (.cons (.leaf _) .nil)) (List.reverse_perm _).symm

/-- On a record without attributes the one order has no answer without a matcher and the other has one,
which is then the answer of the first with every matcher that has any. -/
theorem questionFirst_agrees :
    questionFirst.Reordered questionLast ∧
      questionFirst.holds .empty true = .error (.notImplemented .approximate) ∧
      questionLast.holds .empty true = .ok true ∧
      (∀ m a, questionFirst.holdsWith m .empty true = .ok a → a = true) ∧
      (Filter.or settledClauses).IsSchemaFree ∧ (Filter.or settledClauses).Compiles ∧
      ∃ b, (Filter.or settledClauses).holds .empty false = .ok b ∧
        (Filter.or settledClauses.reverse).holds .empty false = .ok b := by
  have hinner := reordered_reverse
  have houter : questionFirst.Reordered questionLast :=
    .negation (.junction (.cons (.leaf _) (.cons hinner .nil)) (.swap _ _ _))
  have hlast (m : Matcher) : questionLast.holdsWith m .empty true = .ok true := rfl
  have hfree : (Filter.or settledClauses).IsSchemaFree := by decide
  have hcompiles : (Filter.or settledClauses).Compiles := by decide
  refine ⟨houter, rfl, rfl, ?_, hfree, hcompiles, ?_⟩
  · intro m a ha
    exact (reordered_filters_agree houter).1 m .empty true a true ha (hlast m)
  · exact (reordered_filters_agree hinner).2 hfree hcompiles .unsupported .empty false

end SearchFilter.Filter
