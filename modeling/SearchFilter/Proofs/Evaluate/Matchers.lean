import Mathlib.Tactic.Common
import SearchFilter.Proofs.Evaluate.Junction

namespace SearchFilter

/-- Whether a matcher gives all the answers that another one gives. -/
def Matcher.Extends (m' m : Matcher) : Prop :=
  ∀ (r : Record) (strict : Bool) (q : Question) (b : Bool), m.answer r strict q = .ok b →
    m'.answer r strict q = .ok b

theorem Matcher.answer_unsupported (r : Record) (strict : Bool) (q : Question) :
    Matcher.unsupported.answer r strict q = .error (.notImplemented q.kind) := by
  cases q <;> rfl

/-- Every matcher answers more than the one that answers nothing. -/
theorem Matcher.extends_unsupported (m : Matcher) : m.Extends .unsupported := by
  intro r strict q b h
  rw [answer_unsupported] at h
  cases h

namespace Filter

variable {m m' : Matcher} {r : Record} {strict b : Bool} {c : Connective} {f : Filter}
  {fs : List Filter} {q : Question}

/-- Clauses with an answer are gone through alike, if each clause with an answer is evaluated alike.
No failure is taken for an answer on the way. -/
theorem evaluateAll_eq_of_extends
    (hclause : ∀ f ∈ fs, ∀ b, f.holdsWith m r strict = .ok b →
      f.evaluate m' r strict = f.evaluate m r strict)
    (hall : (evaluateAll m r strict c fs).1 = .ok b) :
    evaluateAll m' r strict c fs = evaluateAll m r strict c fs := by
  induction fs with
  | nil => rfl
  | cons f fs ih =>
    rw [List.forall_mem_cons] at hclause
    -- A clause that fails ends the junction, so whichever way it goes, this clause has an answer.
    by_cases hf : f.holdsWith m r strict = .ok c.neutral
    · have hsame := hclause.1 _ hf
      have hf' : f.holdsWith m' r strict = .ok c.neutral := (congrArg Prod.fst hsame).trans hf
      rw [evaluateAll_cons_of_neutral hf] at hall
      rw [evaluateAll_cons_of_neutral hf, evaluateAll_cons_of_neutral hf', hsame, ih hclause.2 hall]
    · rw [evaluateAll_cons_of_ne hf] at hall
      have hsame := hclause.1 b hall
      have hf' : f.holdsWith m' r strict ≠ .ok c.neutral := by
        unfold holdsWith at hf ⊢
        rwa [hsame]
      rw [evaluateAll_cons_of_ne hf, evaluateAll_cons_of_ne hf', hsame]

/-- Where a matcher suffices for an answer, one that extends it is asked the same and leads to the
same. -/
theorem evaluate_eq_of_extends (hm : m'.Extends m) (hf : f.holdsWith m r strict = .ok b) :
    f.evaluate m' r strict = f.evaluate m r strict := by
  induction f generalizing b with
  | leaf a =>
    rw [holdsWith, evaluate] at hf
    rw [evaluate, evaluate]
    rcases a.evaluate_cases r strict with ⟨q, _, hrun⟩ | ⟨_, ⟨x, hrun⟩ | ⟨_, fault, hrun⟩⟩
    · rw [hrun] at hf
      have hq : m.answer r strict q = .ok b := hf
      rw [hrun, hrun, hm r strict q b hq, hq]
    · rw [hrun, hrun]
    · rw [hrun, hrun]
  | negation f ih =>
    rw [evaluate_negation, evaluate_negation, ih (holdsWith_negation_eq_ok_iff.1 hf)]
  | junction c fs ih =>
    exact evaluateAll_eq_of_extends (fun f hf _ => ih f hf) hf

/-- An answer of a filter rests on answers to all questions that were asked. -/
theorem exists_answer_of_mem (hf : f.holdsWith m r strict = .ok b)
    (hq : q ∈ (f.evaluate m r strict).2) : ∃ x, m.answer r strict q = .ok x := by
  induction f generalizing b with
  | leaf a =>
    rw [holdsWith, evaluate] at hf
    rw [evaluate] at hq
    rcases a.evaluate_cases r strict with ⟨p, _, hrun⟩ | ⟨_, ⟨x, hrun⟩ | ⟨_, fault, hrun⟩⟩
    · rw [hrun] at hf hq
      obtain rfl := List.mem_singleton.1 hq
      exact ⟨b, hf⟩
    · rw [hrun] at hq
      cases hq
    · rw [hrun] at hf
      cases hf
  | negation f ih => exact ih (holdsWith_negation_eq_ok_iff.1 hf) hq
  | junction c fs ih =>
    rw [holdsWith, evaluate_junction] at hf
    rw [evaluate_junction] at hq
    rcases evaluateAll_cases m r strict c fs with
      ⟨hall, hrun⟩ | ⟨before, f, after, rfl, hbefore, _, hrun⟩
    · rw [hrun, List.mem_flatMap] at hq
      obtain ⟨f, hmem, hq⟩ := hq
      exact ih f hmem (hall f hmem) hq
    · rw [hrun] at hf hq
      rcases List.mem_append.1 hq with hq | hq
      · obtain ⟨g, hmem, hq⟩ := List.mem_flatMap.1 hq
        exact ih g (List.mem_append_left _ hmem) (hbefore g hmem) hq
      · exact ih f (by simp) hf hq

/-- A filter that has an answer without a matcher asks none. -/
theorem evaluate_eq_of_holds (hf : f.holds r strict = .ok b) (m : Matcher) :
    f.evaluate m r strict = (.ok b, []) := by
  rw [evaluate_eq_of_extends m.extends_unsupported hf]
  have hnone : (f.evaluate .unsupported r strict).2 = [] := by
    rw [List.eq_nil_iff_forall_not_mem]
    intro q hq
    obtain ⟨x, hx⟩ := exists_answer_of_mem hf hq
    rw [Matcher.answer_unsupported] at hx
    cases hx
  exact Prod.ext hf hnone

/-- An evaluation fails where a matcher does, or because of a pattern. -/
theorem error_cases {e : FilterError} (hf : f.holdsWith m r strict = .error e) :
    (∃ q, m.answer r strict q = .error e) ∨ ¬f.Compiles ∧ ∃ fault, e = .invalid fault := by
  induction f with
  | leaf a =>
    rw [holdsWith, evaluate] at hf
    rcases a.evaluate_cases r strict with ⟨q, _, hrun⟩ | ⟨_, ⟨x, hrun⟩ | ⟨hnot, fault, hrun⟩⟩
    · rw [hrun] at hf
      exact .inl ⟨q, hf⟩
    · rw [hrun] at hf
      cases hf
    · rw [hrun] at hf
      cases hf
      exact .inr ⟨fun h => hnot (compiles_leaf.1 h), fault, rfl⟩
  | negation f ih => exact ih (holdsWith_negation_eq_error_iff.1 hf)
  | junction c fs ih =>
    rcases holdsWith_junction_cases m r strict c fs with ⟨_, hrun⟩ | ⟨f, hmem, _, hrun⟩
    · rw [hrun] at hf
      cases hf
    · rw [hrun] at hf
      rcases ih f hmem hf with hanswer | ⟨hnot, hfault⟩
      · exact .inl hanswer
      · exact .inr ⟨fun h => hnot (h.clause hmem), hfault⟩

/-- The question that a filter comes to first: in a junction it is that of a clause before which every
clause gives the neutral value without a matcher. -/
inductive FirstQuestion (r : Record) (strict : Bool) : Filter → Question → Prop where
  | leaf {a : Assertion} {q : Question} (hq : a.question? = some q) : FirstQuestion r strict (leaf a) q
  | negation {f : Filter} {q : Question} (h : FirstQuestion r strict f q) :
    FirstQuestion r strict (negation f) q
  | junction {c : Connective} {before after : List Filter} {f : Filter} {q : Question}
    (hbefore : ∀ g ∈ before, g.holds r strict = .ok c.neutral) (h : FirstQuestion r strict f q) :
    FirstQuestion r strict (junction c (before ++ f :: after)) q

/-- A filter fails for want of a matcher at the first question that it comes to. -/
theorem exists_firstQuestion {k : SchemaMatch} (hf : f.holds r strict = .error (.notImplemented k)) :
    ∃ q, FirstQuestion r strict f q ∧ q.kind = k := by
  induction f with
  | leaf a =>
    rw [holds, holdsWith, evaluate] at hf
    rcases a.evaluate_cases r strict with ⟨q, hq, hrun⟩ | ⟨_, ⟨x, hrun⟩ | ⟨_, fault, hrun⟩⟩
    · rw [hrun, Matcher.answer_unsupported] at hf
      cases hf
      exact ⟨q, .leaf hq, rfl⟩
    · rw [hrun] at hf
      cases hf
    · rw [hrun] at hf
      cases hf
  | negation f ih =>
    obtain ⟨q, hq, hk⟩ := ih (holdsWith_negation_eq_error_iff.1 hf)
    exact ⟨q, .negation hq, hk⟩
  | junction c fs ih =>
    rw [holds, holdsWith, evaluate_junction] at hf
    rcases evaluateAll_cases .unsupported r strict c fs with
      ⟨_, hrun⟩ | ⟨before, f, after, rfl, hbefore, _, hrun⟩
    · rw [hrun] at hf
      cases hf
    · rw [hrun] at hf
      obtain ⟨q, hq, hk⟩ := ih f (by simp) hf
      exact ⟨q, .junction hbefore hq, hk⟩

/-- Clauses that are settled without a matcher, and decide nothing, make no difference to any. -/
theorem evaluateAll_append_of_holds {before : List Filter}
    (hbefore : ∀ g ∈ before, g.holds r strict = .ok c.neutral) (m : Matcher) (fs : List Filter) :
    evaluateAll m r strict c (before ++ fs) = evaluateAll m r strict c fs := by
  have hsame : ∀ g ∈ before, g.evaluate m r strict = (.ok c.neutral, []) := by
    intro g hg
    exact evaluate_eq_of_holds (hbefore g hg) m
  have hpassed : ∀ g ∈ before, g.holdsWith m r strict = .ok c.neutral := by
    intro g hg
    rw [holdsWith, hsame g hg]
  have hquiet : before.flatMap (fun g => (g.evaluate m r strict).2) = [] := by
    rw [List.flatMap_eq_nil_iff]
    intro g hg
    rw [hsame g hg]
  rw [evaluateAll_append hpassed, hquiet, List.nil_append]

theorem exists_questions_cons (m : Matcher) (r : Record) (strict : Bool) (c : Connective) (f : Filter)
    (fs : List Filter) :
    ∃ more, (evaluateAll m r strict c (f :: fs)).2 = (f.evaluate m r strict).2 ++ more := by
  by_cases hf : f.holdsWith m r strict = .ok c.neutral
  · exact ⟨_, congrArg Prod.snd (evaluateAll_cons_of_neutral hf fs)⟩
  · refine ⟨[], ?_⟩
    rw [evaluateAll_cons_of_ne hf, List.append_nil]

namespace FirstQuestion

/-- Whichever matcher there is, it is asked this question first. -/
theorem head?_eq (h : FirstQuestion r strict f q) (m : Matcher) :
    (f.evaluate m r strict).2.head? = some q := by
  induction h with
  | leaf hq => rw [evaluate, Assertion.evaluate_eq_of_question hq, List.head?_cons]
  | negation _ ih => exact ih
  | @junction c before after f q hbefore _ ih =>
    obtain ⟨more, hmore⟩ := exists_questions_cons m r strict c f after
    rw [evaluate_junction, evaluateAll_append_of_holds hbefore, hmore, List.head?_append, ih,
      Option.some_or]

/-- A matcher that fails at this question is asked nothing else, and its failure is that of the
filter. -/
theorem evaluate_eq {e : FilterError} (h : FirstQuestion r strict f q)
    (hq : m.answer r strict q = .error e) : f.evaluate m r strict = (.error e, [q]) := by
  induction h with
  | leaf hleaf => rw [evaluate, Assertion.evaluate_eq_of_question hleaf, hq]
  | negation _ ih =>
    rw [evaluate_negation, ih hq]
    rfl
  | @junction c before after f q hbefore _ ih =>
    have hne : f.holdsWith m r strict ≠ .ok c.neutral := by
      rw [holdsWith, ih hq]
      simp
    rw [evaluate_junction, evaluateAll_append_of_holds hbefore, evaluateAll_cons_of_ne hne, ih hq]

end FirstQuestion

/-- A matcher that answers more questions changes no answer that there was. What has an answer without
a matcher has it with each, and none is asked for it. What has no answer for want of a matcher comes to
a question, the first one that any matcher would be asked, and fails with its kind. -/
theorem answers_kept_by_richer_matchers :
    (∀ (m m' : Matcher) (f : Filter) (r : Record) (strict b : Bool), m'.Extends m →
        f.holdsWith m r strict = .ok b → f.holdsWith m' r strict = .ok b) ∧
      (∀ (f : Filter) (r : Record) (strict b : Bool), f.holds r strict = .ok b →
        ∀ m, f.evaluate m r strict = (.ok b, [])) ∧
      (∀ (f : Filter) (r : Record) (strict : Bool) (k : SchemaMatch),
        f.holds r strict = .error (.notImplemented k) ↔
          ∃ q, FirstQuestion r strict f q ∧ q.kind = k) ∧
      (∀ (f : Filter) (r : Record) (strict : Bool) (q : Question), FirstQuestion r strict f q →
        ∀ m, (f.evaluate m r strict).2.head? = some q) ∧
      ∀ (f : Filter) (r : Record) (strict : Bool) (e : FilterError), f.Compiles →
        f.holds r strict = .error e → ∃ k, e = .notImplemented k := by
  refine ⟨?_, fun _ _ _ _ => evaluate_eq_of_holds, ?_, fun _ _ _ _ => FirstQuestion.head?_eq, ?_⟩
  · intro m m' f r strict b hm hf
    rw [holdsWith, evaluate_eq_of_extends hm hf]
    exact hf
  · intro f r strict k
    refine ⟨exists_firstQuestion, ?_⟩
    rintro ⟨q, hq, rfl⟩
    exact congrArg Prod.fst (hq.evaluate_eq (Matcher.answer_unsupported r strict q))
  · intro f r strict e hcompiles hf
    rcases error_cases hf with ⟨q, hq⟩ | ⟨hnot, _⟩
    · rw [Matcher.answer_unsupported] at hq
      cases hq
      exact ⟨q.kind, rfl⟩
    · exact absurd hcompiles hnot

/-- A matcher that finds an attribute alike if it is there, and refuses matching rules. -/
def presenceMatcher : Matcher where
  approximate := fun name _ r strict => .ok (r.get? name strict).isSome
  extensible := Matcher.unsupported.extensible

/-- The same matcher, where matching rules are always met. -/
def lenientMatcher : Matcher :=
  { presenceMatcher with extensible := fun _ _ _ => .ok true }

/-- An assertion for a matching rule. -/
def ruleQuestion : Extensible :=
  { matchType := none, rule := some "2.5.13.2", value := [0x61], dnAttributes := true,
    substrings := none }

/-- A negation of clauses that come to two questions, behind one that needs none. -/
def twoQuestions : Filter :=
  negation (.and [negation (leaf (.presence "mail")), comparison .approximate "cn" [0x61],
    leaf (.extensible ruleQuestion)])

/-- One of the matchers answers both questions and the other the first alone, which is enough for
the filter. Without a matcher it fails at that question. -/
theorem twoQuestions_answers :
    lenientMatcher.Extends presenceMatcher ∧
      twoQuestions.holdsWith presenceMatcher .empty true = .ok true ∧
      twoQuestions.holdsWith lenientMatcher .empty true = .ok true ∧
      twoQuestions.FirstQuestion .empty true (.approximate "cn" [0x61]) ∧
      twoQuestions.holds .empty true = .error (.notImplemented .approximate) := by
  have hextends : lenientMatcher.Extends presenceMatcher := by
    intro r strict q b h
    cases q with
    | approximate name value => exact h
    | extensible e => cases h
  have hanswer : twoQuestions.holdsWith presenceMatcher .empty true = .ok true := rfl
  have hbefore : ∀ g ∈ [negation (leaf (.presence "mail"))], g.holds .empty true = .ok true := by
    intro g hg
    rw [List.mem_singleton.1 hg]
    rfl
  have hclauses : (Filter.and ([negation (leaf (.presence "mail"))] ++
      comparison .approximate "cn" [0x61] :: [leaf (.extensible ruleQuestion)])).FirstQuestion .empty
        true (.approximate "cn" [0x61]) := .junction hbefore (.leaf rfl)
  have hfirst : twoQuestions.FirstQuestion .empty true (.approximate "cn" [0x61]) :=
    .negation hclauses
  obtain ⟨hkept, _, hfails, _⟩ := answers_kept_by_richer_matchers
  refine ⟨hextends, hanswer, hkept _ _ _ _ _ _ hextends hanswer, hfirst, ?_⟩
  exact (hfails _ _ _ _).2 ⟨_, hfirst, rfl⟩

end Filter

end SearchFilter
