import Mathlib.Tactic.Common
import SearchFilter.Evaluate
import SearchFilter.Proofs.Filter.Tree

namespace SearchFilter

/-- What a matcher says to a question. -/
def Matcher.answer (m : Matcher) (r : Record) (strict : Bool) : Question → Answer
  | .approximate name value => m.approximate name value r strict
  | .extensible e => m.extensible e r strict

/-- The kind of match that a question is about. -/
def Question.kind : Question → SchemaMatch
  | .approximate _ _ => .approximate
  | .extensible _ => .extensible

namespace Assertion

/-- The question that an assertion puts to a matcher, if its meaning depends on the schema. -/
def question? : Assertion → Option Question
  | .comparison .approximate name value => some (.approximate name value)
  | .extensible e => some (.extensible e)
  | _ => none

/-- Whether the pattern of a substring assertion can be compiled. -/
def Compiles : Assertion → Prop
  | .substring _ fragments => ∃ p, Pattern.compile fragments = .ok p
  | _ => True

instance decidableCompiles : (a : Assertion) → Decidable a.Compiles
  | .substring _ fragments =>
    match h : Pattern.compile fragments with
    | .ok p => .isTrue ⟨p, h⟩
    | .error e => .isFalse fun ⟨p, hp⟩ => by
      rw [h] at hp
      cases hp
  | .empty | .comparison .. | .presence _ | .extensible _ => inferInstanceAs (Decidable True)

/-- A leaf puts its question to the matcher, or no matcher has a say. What can then go wrong is a
pattern. -/
theorem evaluate_cases (a : Assertion) (r : Record) (strict : Bool) :
    (∃ q, a.question? = some q ∧ ∀ m, a.evaluate m r strict = (m.answer r strict q, [q])) ∨
      a.question? = none ∧ ((∃ b, ∀ m, a.evaluate m r strict = (.ok b, [])) ∨
        ¬a.Compiles ∧ ∃ fault, ∀ m, a.evaluate m r strict = (.error (.invalid fault), [])) := by
  cases a with
  | empty => exact .inr ⟨rfl, .inl ⟨false, fun m => rfl⟩⟩
  | comparison op name value =>
    cases op with
    | approximate => exact .inl ⟨_, rfl, fun m => rfl⟩
    | _ => exact .inr ⟨rfl, .inl ⟨_, fun m => rfl⟩⟩
  | presence name => exact .inr ⟨rfl, .inl ⟨_, fun m => rfl⟩⟩
  | extensible e => exact .inl ⟨_, rfl, fun m => rfl⟩
  | substring name fragments =>
    refine .inr ⟨rfl, ?_⟩
    -- Without the attribute the pattern is not compiled, so it cannot fail.
    cases hget : r.get? name strict with
    | none =>
      refine .inl ⟨false, fun m => ?_⟩
      rw [evaluate, hget]
    | some value =>
      have heval (m : Matcher) : (Assertion.substring name fragments).evaluate m r strict =
          ((Pattern.compile fragments).map
            (fun p => value.test (fun s => p.fits s.chars) false), []) := by
        rw [evaluate, hget]
      simp only [heval, Compiles]
      unfold Pattern.compile
      dsimp only
      split_ifs with hsize
      · exact .inl ⟨_, fun m => rfl⟩
      · refine .inr ⟨?_, _, fun m => rfl⟩
        rintro ⟨p, hp⟩
        cases hp

/-- A leaf that depends on the schema does what the matcher says, and puts one question. -/
theorem evaluate_eq_of_question {a : Assertion} {m : Matcher} {r : Record} {strict : Bool}
    {q : Question} (hq : a.question? = some q) :
    a.evaluate m r strict = (m.answer r strict q, [q]) := by
  rcases a.evaluate_cases r strict with ⟨p, hp, hrun⟩ | ⟨hnone, _⟩
  · obtain rfl : q = p := Option.some.inj (hq.symm.trans hp)
    exact hrun m
  · rw [hq] at hnone
    cases hnone

end Assertion

namespace Filter

/-- Whether no leaf depends on the schema. -/
def IsSchemaFree (f : Filter) : Prop :=
  ∀ a ∈ f.leaves, a.question? = none

/-- Whether every pattern of a filter can be compiled. -/
def Compiles (f : Filter) : Prop :=
  ∀ a ∈ f.leaves, a.Compiles

instance decidableIsSchemaFree (f : Filter) : Decidable f.IsSchemaFree :=
  inferInstanceAs (Decidable (∀ a ∈ f.leaves, a.question? = none))

instance decidableCompiles (f : Filter) : Decidable f.Compiles :=
  inferInstanceAs (Decidable (∀ a ∈ f.leaves, a.Compiles))

variable {m : Matcher} {r : Record} {strict : Bool} {c : Connective} {f : Filter} {fs : List Filter}

theorem evaluate_negation (f : Filter) :
    (negation f).evaluate m r strict =
      ((f.evaluate m r strict).1.map (!·), (f.evaluate m r strict).2) := rfl

theorem evaluate_junction (c : Connective) (fs : List Filter) :
    (junction c fs).evaluate m r strict = evaluateAll m r strict c fs := rfl

/-- A clause that decides nothing is passed, and what it asked is asked first. -/
theorem evaluateAll_cons_of_neutral (hf : f.holdsWith m r strict = .ok c.neutral) (fs : List Filter) :
    evaluateAll m r strict c (f :: fs) = ((evaluateAll m r strict c fs).1,
      (f.evaluate m r strict).2 ++ (evaluateAll m r strict c fs).2) := by
  unfold holdsWith at hf
  rw [evaluateAll]
  rcases hfirst : f.evaluate m r strict with ⟨answer, asked⟩
  rw [hfirst] at hf
  obtain rfl : answer = .ok c.neutral := hf
  simp

/-- A clause that decides a junction or fails is the last one looked at. -/
theorem evaluateAll_cons_of_ne (hf : f.holdsWith m r strict ≠ .ok c.neutral) (fs : List Filter) :
    evaluateAll m r strict c (f :: fs) = f.evaluate m r strict := by
  unfold holdsWith at hf
  rw [evaluateAll]
  rcases hfirst : f.evaluate m r strict with ⟨answer, asked⟩
  rw [hfirst] at hf
  cases answer with
  | error e => rfl
  | ok b =>
    have hb : b ≠ c.neutral := fun h => hf (congrArg Except.ok h)
    exact if_neg hb

/-- The clauses that do not decide a junction are passed, and their questions are asked first. -/
theorem evaluateAll_append {before : List Filter}
    (hbefore : ∀ g ∈ before, g.holdsWith m r strict = .ok c.neutral) (fs : List Filter) :
    evaluateAll m r strict c (before ++ fs) = ((evaluateAll m r strict c fs).1,
      before.flatMap (fun g => (g.evaluate m r strict).2) ++ (evaluateAll m r strict c fs).2) := by
  induction before with
  | nil => rfl
  | cons g before ih =>
    rw [List.forall_mem_cons] at hbefore
    rw [List.cons_append, evaluateAll_cons_of_neutral hbefore.1, ih hbefore.2, List.flatMap_cons,
      List.append_assoc]

/-- Either no clause decides a junction, or there is a first one that decides it or fails. -/
theorem exists_deciding_clause (m : Matcher) (r : Record) (strict : Bool) (c : Connective)
    (fs : List Filter) :
    (∀ f ∈ fs, f.holdsWith m r strict = .ok c.neutral) ∨
      ∃ before f after, fs = before ++ f :: after ∧
        (∀ g ∈ before, g.holdsWith m r strict = .ok c.neutral) ∧
        f.holdsWith m r strict ≠ .ok c.neutral := by
  induction fs with
  | nil => exact .inl fun f hf => absurd hf List.not_mem_nil
  | cons f fs ih =>
    by_cases hf : f.holdsWith m r strict = .ok c.neutral
    · rcases ih with hall | ⟨before, g, after, rfl, hbefore, hg⟩
      · exact .inl (List.forall_mem_cons.2 ⟨hf, hall⟩)
      · exact .inr ⟨f :: before, g, after, rfl, List.forall_mem_cons.2 ⟨hf, hbefore⟩, hg⟩
    · refine .inr ⟨[], f, fs, rfl, ?_, hf⟩
      intro g hg
      cases hg

/-- A junction gives its neutral value if every clause does, and else the answer of the first clause
that does not. No later clause is looked at. -/
theorem evaluateAll_cases (m : Matcher) (r : Record) (strict : Bool) (c : Connective)
    (fs : List Filter) :
    (∀ f ∈ fs, f.holdsWith m r strict = .ok c.neutral) ∧
        evaluateAll m r strict c fs =
          (.ok c.neutral, fs.flatMap fun f => (f.evaluate m r strict).2) ∨
      ∃ before f after, fs = before ++ f :: after ∧
        (∀ g ∈ before, g.holdsWith m r strict = .ok c.neutral) ∧
        f.holdsWith m r strict ≠ .ok c.neutral ∧
        evaluateAll m r strict c fs = (f.holdsWith m r strict,
          before.flatMap (fun g => (g.evaluate m r strict).2) ++ (f.evaluate m r strict).2) := by
  rcases exists_deciding_clause m r strict c fs with hall | ⟨before, f, after, rfl, hbefore, hf⟩
  · have hrun := evaluateAll_append hall []
    rw [List.append_nil, evaluateAll, List.append_nil] at hrun
    exact .inl ⟨hall, hrun⟩
  · have hrun := evaluateAll_append hbefore (f :: after)
    rw [evaluateAll_cons_of_ne hf] at hrun
    exact .inr ⟨before, f, after, rfl, hbefore, hf, hrun⟩

theorem holdsWith_negation_eq_ok_iff {b : Bool} :
    (negation f).holdsWith m r strict = .ok b ↔ f.holdsWith m r strict = .ok (!b) := by
  change (f.holdsWith m r strict).map (!·) = .ok b ↔ _
  cases f.holdsWith m r strict with
  | error e => simp [Except.map]
  | ok a => cases a <;> cases b <;> simp [Except.map]

theorem holdsWith_negation_eq_error_iff {e : FilterError} :
    (negation f).holdsWith m r strict = .error e ↔ f.holdsWith m r strict = .error e := by
  change (f.holdsWith m r strict).map (!·) = .error e ↔ _
  cases f.holdsWith m r strict with
  | error e' => simp [Except.map]
  | ok a => simp [Except.map]

/-- A junction answers with its neutral value for all its clauses, or as one of them does. -/
theorem holdsWith_junction_cases (m : Matcher) (r : Record) (strict : Bool) (c : Connective)
    (fs : List Filter) :
    (∀ f ∈ fs, f.holdsWith m r strict = .ok c.neutral) ∧
        (junction c fs).holdsWith m r strict = .ok c.neutral ∨
      ∃ f ∈ fs, f.holdsWith m r strict ≠ .ok c.neutral ∧
        (junction c fs).holdsWith m r strict = f.holdsWith m r strict := by
  rcases evaluateAll_cases m r strict c fs with ⟨hall, hrun⟩ | ⟨before, f, after, rfl, _, hf, hrun⟩
  · exact .inl ⟨hall, congrArg Prod.fst hrun⟩
  · refine .inr ⟨f, by simp, hf, ?_⟩
    rw [holdsWith, evaluate_junction, hrun]

/-- An answer of a junction is that of all clauses where it is the neutral one, and else that of one
clause. -/
theorem clauses_of_holdsWith_junction {b : Bool} (h : (junction c fs).holdsWith m r strict = .ok b) :
    b = c.neutral ∧ (∀ f ∈ fs, f.holdsWith m r strict = .ok b) ∨
      b ≠ c.neutral ∧ ∃ f ∈ fs, f.holdsWith m r strict = .ok b := by
  rcases holdsWith_junction_cases m r strict c fs with ⟨hall, hrun⟩ | ⟨f, hmem, hf, hrun⟩
  · obtain rfl : c.neutral = b := Except.ok.inj (hrun.symm.trans h)
    exact .inl ⟨rfl, hall⟩
  · rw [hrun] at h
    refine .inr ⟨?_, f, hmem, h⟩
    rintro rfl
    exact hf h

theorem isSchemaFree_leaf {a : Assertion} : (leaf a).IsSchemaFree ↔ a.question? = none := by
  simp [IsSchemaFree, leaves]

theorem compiles_leaf {a : Assertion} : (leaf a).Compiles ↔ a.Compiles := by
  simp [Compiles, leaves]

theorem Compiles.clause (h : (junction c fs).Compiles) (hf : f ∈ fs) : f.Compiles :=
  fun a ha => h a (mem_leaves_junction.2 ⟨f, hf, ha⟩)

theorem IsSchemaFree.clause (h : (junction c fs).IsSchemaFree) (hf : f ∈ fs) : f.IsSchemaFree :=
  fun a ha => h a (mem_leaves_junction.2 ⟨f, hf, ha⟩)

/-- A filter whose leaves are all settled by the record has an answer. -/
theorem exists_holdsWith_eq_ok (hfree : f.IsSchemaFree) (hcompiles : f.Compiles) (m : Matcher)
    (r : Record) (strict : Bool) : ∃ b, f.holdsWith m r strict = .ok b := by
  induction f with
  | leaf a =>
    rcases a.evaluate_cases r strict with ⟨q, hq, _⟩ | ⟨_, ⟨b, hrun⟩ | ⟨hnot, _⟩⟩
    · rw [isSchemaFree_leaf, hq] at hfree
      cases hfree
    · exact ⟨b, congrArg Prod.fst (hrun m)⟩
    · exact absurd (compiles_leaf.1 hcompiles) hnot
  | negation f ih =>
    obtain ⟨b, hb⟩ := ih hfree hcompiles
    refine ⟨!b, holdsWith_negation_eq_ok_iff.2 ?_⟩
    rwa [Bool.not_not]
  | junction c fs ih =>
    rcases holdsWith_junction_cases m r strict c fs with ⟨_, hrun⟩ | ⟨f, hmem, _, hrun⟩
    · exact ⟨c.neutral, hrun⟩
    · obtain ⟨b, hb⟩ := ih f hmem (hfree.clause hmem) (hcompiles.clause hmem)
      exact ⟨b, hrun.trans hb⟩

end Filter

end SearchFilter
