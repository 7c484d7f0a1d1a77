import Mathlib.Logic.Relation
import Mathlib.Tactic.Common
import SearchFilter.Proofs.Evaluate.Junction

namespace SearchFilter

/-- The other connective, which combines negated clauses to the negation. -/
def Connective.dual : Connective → Connective
  | .and => .or
  | .or => .and

/-- What does not decide a junction decides one of the other connective. -/
theorem Connective.neutral_dual (c : Connective) : c.dual.neutral = !c.neutral := by
  cases c <;> rfl

namespace Filter

section
variable {μ : Type → Type} [Monad μ]

mutual

/-- Evaluates a filter where questions are put to `ask`, with whatever effects that has. -/
def evaluateIn (ask : Question → μ Answer) (r : Record) (strict : Bool) : Filter → μ Answer
  | leaf a =>
    match a.question? with
    | some q => ask q
    | none => pure (a.evaluate .unsupported r strict).1
  | negation f => do return (← evaluateIn ask r strict f).map (!·)
  | junction c fs => evaluateAllIn ask r strict c fs

/-- Evaluates the clauses of a junction up to the first one that decides it or fails. -/
def evaluateAllIn (ask : Question → μ Answer) (r : Record) (strict : Bool) (c : Connective) :
    List Filter → μ Answer
  | [] => pure (.ok c.neutral)
  | f :: fs => do
    let answer ← evaluateIn ask r strict f
    if answer = .ok c.neutral then evaluateAllIn ask r strict c fs else return answer

end

end

/-- A matcher whose questions are written to a log. -/
def logged (m : Matcher) (r : Record) (strict : Bool) (q : Question) : StateM (List Question) Answer :=
  fun log => (m.answer r strict q, log ++ [q])

/-- Clauses are gone through with the log as without it, if each of them is evaluated so. -/
theorem evaluateAllIn_logged {m : Matcher} {r : Record} {strict : Bool} {fs : List Filter}
    (hclause : ∀ f ∈ fs, ∀ log, f.evaluateIn (logged m r strict) r strict log =
      ((f.evaluate m r strict).1, log ++ (f.evaluate m r strict).2))
    (c : Connective) (log : List Question) :
    evaluateAllIn (logged m r strict) r strict c fs log =
      ((evaluateAll m r strict c fs).1, log ++ (evaluateAll m r strict c fs).2) := by
  induction fs generalizing log with
  | nil =>
    rw [evaluateAllIn, evaluateAll, List.append_nil]
    rfl
  | cons f fs ih =>
    rw [List.forall_mem_cons] at hclause
    -- The first clause is run on the log as it stands, and what it leaves is what the others start on.
    have hstep : evaluateAllIn (logged m r strict) r strict c (f :: fs) log =
        (if f.holdsWith m r strict = .ok c.neutral then
          evaluateAllIn (logged m r strict) r strict c fs
        else pure (f.holdsWith m r strict)) (log ++ (f.evaluate m r strict).2) := by
      rw [evaluateAllIn]
      change (fun p : Answer × List Question => (if p.1 = .ok c.neutral then
          evaluateAllIn (logged m r strict) r strict c fs else pure p.1) p.2)
        (f.evaluateIn (logged m r strict) r strict log) = _
      rw [hclause.1]
      rfl
    rw [hstep]
    by_cases hf : f.holdsWith m r strict = .ok c.neutral
    · rw [if_pos hf, ih hclause.2, evaluateAll_cons_of_neutral hf, List.append_assoc]
    · rw [if_neg hf, evaluateAll_cons_of_ne hf]
      rfl

/-- Evaluation gives the answer and the log of such a matcher. -/
theorem evaluateIn_logged (m : Matcher) (r : Record) (strict : Bool) (f : Filter)
    (log : List Question) :
    f.evaluateIn (logged m r strict) r strict log =
      ((f.evaluate m r strict).1, log ++ (f.evaluate m r strict).2) := by
  induction f generalizing log with
  | leaf a =>
    rw [evaluateIn, evaluate]
    rcases a.evaluate_cases r strict with ⟨q, hq, hrun⟩ | ⟨hq, ⟨x, hrun⟩ | ⟨_, fault, hrun⟩⟩
    · rw [hq, hrun m]
      rfl
    · rw [hq, hrun, hrun, List.append_nil]
      rfl
    · rw [hq, hrun, hrun, List.append_nil]
      rfl
  | negation f ih =>
    rw [evaluateIn, evaluate_negation]
    change (fun p : Answer × List Question => (p.1.map (!·), p.2))
      (f.evaluateIn (logged m r strict) r strict log) = _
    rw [ih]
  | junction c fs ih => exact evaluateAllIn_logged ih c log

variable {μ : Type → Type} [Monad μ] [LawfulMonad μ] {ask : Question → μ Answer} {r : Record}
  {strict : Bool} {c : Connective}

/-- Clauses behind others are only looked at if those before them decide nothing. -/
theorem evaluateAllIn_append (before after : List Filter) :
    evaluateAllIn ask r strict c (before ++ after) = do
      let answer ← evaluateAllIn ask r strict c before
      if answer = .ok c.neutral then evaluateAllIn ask r strict c after else return answer := by
  induction before with
  | nil => simp [evaluateAllIn]
  | cons f before ih =>
    rw [List.cons_append, evaluateAllIn, evaluateAllIn, ih, bind_assoc]
    apply bind_congr
    intro answer
    by_cases h : answer = .ok c.neutral
    · rw [if_pos h, if_pos h]
    · rw [if_neg h, if_neg h, pure_bind, if_neg h]

/-- A negated clause leaves the other junction undecided just where the clause does so to the
one. -/
theorem map_not_eq_neutral_dual_iff {answer : Answer} :
    answer.map (!·) = .ok c.dual.neutral ↔ answer = .ok c.neutral := by
  rw [Connective.neutral_dual]
  cases answer <;> simp [Except.map]

/-- A negation may be moved from a junction to its clauses, which the other connective then
combines. -/
theorem evaluateAllIn_negations (fs : List Filter) :
    evaluateAllIn ask r strict c.dual (fs.map negation) =
      (fun answer => answer.map (!·)) <$> evaluateAllIn ask r strict c fs := by
  -- Both sides run the same clause first. It passes on the one side just when its negation passes on
  -- the other, so they stop at the same clause.
  induction fs with
  | nil => simp [evaluateAllIn, Connective.neutral_dual, Except.map]
  | cons f fs ih =>
    rw [List.map_cons, evaluateAllIn, evaluateAllIn, evaluateIn, ih]
    simp only [bind_assoc, pure_bind, map_bind]
    apply bind_congr
    intro answer
    by_cases h : answer = .ok c.neutral
    · rw [if_pos h, if_pos (map_not_eq_neutral_dual_iff.2 h)]
    · rw [if_neg h, if_neg (mt map_not_eq_neutral_dual_iff.1 h), map_pure]

/-- One application of a law, at any place in a filter: a negation may be moved through a junction
or cancelled, and a junction in a junction of the same kind may give way to its clauses. -/
inductive LawStep : Filter → Filter → Prop where
  | deMorgan (c : Connective) (fs : List Filter) :
    LawStep (.negation (.junction c fs)) (.junction c.dual (fs.map .negation))
  | doubleNegation (f : Filter) : LawStep (.negation (.negation f)) f
  | splice (c : Connective) (before inner after : List Filter) :
    LawStep (.junction c (before ++ .junction c inner :: after)) (.junction c (before ++ inner ++ after))
  | negation {f g : Filter} (h : LawStep f g) : LawStep (.negation f) (.negation g)
  | clause {f g : Filter} (c : Connective) (before after : List Filter) (h : LawStep f g) :
    LawStep (.junction c (before ++ f :: after)) (.junction c (before ++ g :: after))

/-- Each law puts the same questions in the same order and comes to the same answer, whatever
effects the questions have. -/
theorem LawStep.evaluateIn_eq {f g : Filter} (h : LawStep f g) :
    f.evaluateIn ask r strict = g.evaluateIn ask r strict := by
  induction h with
  | deMorgan c fs =>
    rw [evaluateIn, evaluateIn, evaluateIn, evaluateAllIn_negations, bind_pure_comp]
  | doubleNegation f =>
    have hnot (answer : Answer) : (answer.map (!·)).map (!·) = answer := by
      cases answer <;> simp [Except.map]
    rw [evaluateIn, evaluateIn]
    simp [hnot]
  | splice c before inner after =>
    rw [evaluateIn, evaluateIn, List.append_assoc, evaluateAllIn_append, evaluateAllIn_append before,
      evaluateAllIn, evaluateIn, evaluateAllIn_append inner]
  | negation _ ih => rw [evaluateIn, evaluateIn, ih]
  | clause c before after _ ih =>
    rw [evaluateIn, evaluateIn, evaluateAllIn_append, evaluateAllIn_append before, evaluateAllIn,
      evaluateAllIn, ih]

/-- Without clauses a junction gives its neutral value and asks nothing. -/
theorem evaluate_junction_nil (m : Matcher) (r : Record) (strict : Bool) (c : Connective) :
    (junction c []).evaluate m r strict = (.ok c.neutral, []) := rfl

/-- Filters that laws lead to from one another are evaluated alike: with the same answer or failure,
and with the same questions in the same order. A matcher that does more than answer does the same, too,
so what it answers may depend on what it was asked before; with one that only writes a log it comes to the
plain evaluation. No junction needs a clause: a conjunction without any holds, and a disjunction does not. -/
theorem boolean_laws_keep_evaluation {f g : Filter} (h : Relation.EqvGen LawStep f g) :
    (∀ (m : Matcher) (r : Record) (strict : Bool), f.evaluate m r strict = g.evaluate m r strict) ∧
      (∀ (μ : Type → Type) [Monad μ] [LawfulMonad μ] (ask : Question → μ Answer) (r : Record)
        (strict : Bool), f.evaluateIn ask r strict = g.evaluateIn ask r strict) ∧
      (∀ (k : Filter) (m : Matcher) (r : Record) (strict : Bool) (log : List Question),
        k.evaluateIn (logged m r strict) r strict log =
          ((k.evaluate m r strict).1, log ++ (k.evaluate m r strict).2)) ∧
      ∀ (m : Matcher) (r : Record) (strict : Bool),
        (Filter.and []).evaluate m r strict = (.ok true, []) ∧
          (Filter.or []).evaluate m r strict = (.ok false, []) := by
  have hall : ∀ (μ : Type → Type) [Monad μ] [LawfulMonad μ] (ask : Question → μ Answer) (r : Record)
      (strict : Bool), f.evaluateIn ask r strict = g.evaluateIn ask r strict := by
    intro μ _ _ ask r strict
    induction h with
    | rel f g hstep => exact hstep.evaluateIn_eq
    | refl f => rfl
    | symm f g _ ih => exact ih.symm
    | trans f g k _ _ ihf ihg => exact ihf.trans ihg
  refine ⟨?_, hall, fun k m r strict log => evaluateIn_logged m r strict k log, ?_⟩
  · intro m r strict
    have hlogged := congrFun (hall _ (logged m r strict) r strict) []
    rw [evaluateIn_logged, evaluateIn_logged, List.nil_append, List.nil_append] at hlogged
    exact hlogged
  · intro m r strict
    exact ⟨evaluate_junction_nil m r strict .and, evaluate_junction_nil m r strict .or⟩

/-- A filter that puts a question to the matcher. -/
def named : Filter :=
  comparison .approximate "cn" [0x61]

/-- A filter that puts its question twice, through negations and junctions that do nothing. -/
def nested : Filter :=
  negation (.and [negation (negation named), .and [named, .and []]])

/-- The same filter with the negation moved to the questions. -/
def flat : Filter :=
  .or [negation named, negation named]

/-- A matcher that says yes and no by turns. -/
def byTurns (_ : Question) : StateM Bool Answer :=
  fun turn => (.ok turn, !turn)

/-- Both filters put their question twice to a matcher that answers by turns, and leave it as it
was. One that answers nothing ends them at the first, and junctions without clauses ask nothing. -/
theorem nested_evaluated_as_flat :
    Relation.EqvGen LawStep nested flat ∧
      (∀ m, nested.evaluate m .empty true = flat.evaluate m .empty true) ∧
      flat.evaluateIn byTurns .empty true true = (.ok true, true) ∧
      nested.evaluateIn byTurns .empty true true = (.ok true, true) ∧
      nested.evaluateIn (logged .unsupported .empty true) .empty true [] =
        (.error (.notImplemented .approximate), [.approximate "cn" [0x61]]) ∧
      (Filter.and []).evaluate .unsupported .empty true = (.ok true, []) ∧
      (Filter.or []).evaluate .unsupported .empty true = (.ok false, []) := by
  have hlaws : Relation.EqvGen LawStep nested flat := by
    apply Relation.EqvGen.trans _ (negation (.and [negation (negation named), .and [named]]))
    · exact .rel _ _ (.negation (.clause .and [_] [] (.splice .and [_] [] [])))
    apply Relation.EqvGen.trans _ (negation (.and [negation (negation named), named]))
    · exact .rel _ _ (.negation (.splice .and [_] [_] []))
    apply Relation.EqvGen.trans _ (negation (.and [named, named]))
    · exact .rel _ _ (.negation (.clause .and [] [_] (.doubleNegation named)))
    · exact .rel _ _ (.deMorgan .and [named, named])
  obtain ⟨hmatcher, hask, hlog, hnone⟩ := boolean_laws_keep_evaluation hlaws
  refine ⟨hlaws, fun m => hmatcher m .empty true, rfl, ?_, ?_, hnone .unsupported .empty true⟩
  · rw [hask (StateM Bool) byTurns .empty true]
    rfl
  · rw [hlog nested .unsupported .empty true [], hmatcher]
    rfl

end Filter

end SearchFilter
