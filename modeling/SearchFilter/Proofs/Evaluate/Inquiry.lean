import Mathlib.Tactic.Common
import SearchFilter.Proofs.Evaluate.BooleanLaws

namespace SearchFilter

/-- The questions that are still to be asked, as a tree: a question, and what follows for each
answer to it. A failure to answer one is the result, so nothing follows it. -/
inductive Inquiry where
  | settled (answer : Answer)
  | asks (q : Question) (next : Bool → Inquiry)

namespace Inquiry

/-- Goes on with `next` if a truth value comes out. -/
def andThen : Inquiry → (Bool → Inquiry) → Inquiry
  | settled (.ok b), next => next b
  | settled (.error e), _ => settled (.error e)
  | asks q more, next => asks q fun b => (more b).andThen next

theorem andThen_settled (i : Inquiry) : (i.andThen fun b => settled (.ok b)) = i := by
  induction i with
  | settled answer => cases answer <;> rfl
  | asks q more ih => exact congrArg (asks q) (funext ih)

/-- Puts the questions to `ask`, with whatever effects that has. -/
def run {μ : Type → Type} [Monad μ] (ask : Question → μ Answer) : Inquiry → μ Answer
  | settled answer => pure answer
  | asks q next => do
    match ← ask q with
    | .ok b => (next b).run ask
    | .error e => return .error e

/-- Going on with an answer is putting the questions up to it and then those behind it. -/
theorem run_andThen {μ : Type → Type} [Monad μ] [LawfulMonad μ] (ask : Question → μ Answer)
    (i : Inquiry) (next : Bool → Inquiry) :
    (i.andThen next).run ask = do
      match ← i.run ask with
      | .ok b => (next b).run ask
      | .error e => return .error e := by
  induction i with
  | settled answer => cases answer <;> simp [andThen, run]
  | asks q more ih =>
    simp only [andThen, run, bind_assoc]
    apply bind_congr
    intro answer
    cases answer with
    | ok b => exact ih b
    | error e => simp

section
variable {σ : Type} {ask : Question → StateM σ Answer} {s t : σ} {q : Question} {next : Bool → Inquiry}

theorem run_asks_of_ok {b : Bool} (h : ask q s = (.ok b, t)) :
    (asks q next).run ask s = (next b).run ask t := by
  rw [run]
  change (fun p : Answer × σ => (match p.1 with
    | .ok b => (next b).run ask
    | .error e => pure (.error e) : StateM σ Answer) p.2) (ask q s) = _
  rw [h]

theorem run_asks_of_error {e : FilterError} (h : ask q s = (.error e, t)) :
    (asks q next).run ask s = (.error e, t) := by
  rw [run]
  change (fun p : Answer × σ => (match p.1 with
    | .ok b => (next b).run ask
    | .error e => pure (.error e) : StateM σ Answer) p.2) (ask q s) = _
  rw [h]
  rfl

/-- A matcher that answers the first question in its own way, and then does as `ask` from `s` on. -/
def answeringFirst (b : Bool) (ask : Question → StateM σ Answer) (s : σ) (q : Question) :
    StateM (Option σ) Answer
  | none => (.ok b, some s)
  | some t => ((ask q t).1, some (ask q t).2)

/-- Once the first question is answered, such a matcher is the one it was made of. -/
theorem run_answeringFirst (b : Bool) (i : Inquiry) :
    (i.run (answeringFirst b ask s) (some t)).1 = (i.run ask t).1 := by
  induction i generalizing t with
  | settled answer => rfl
  | asks q next ih =>
    rcases hq : ask q t with ⟨answer, u⟩
    have hfirst : answeringFirst b ask s q (some t) = (answer, some u) := by
      rw [answeringFirst, hq]
    cases answer with
    | ok x => rw [run_asks_of_ok hq, run_asks_of_ok hfirst, ih]
    | error e => rw [run_asks_of_error hq, run_asks_of_error hfirst]

end

/-- A matcher that answers nothing. -/
def failing (e : Question → FilterError) (q : Question) : StateM Unit Answer :=
  pure (.error (e q))

/-- Where nothing is answered, the failure of the first question is the result. -/
theorem run_failing (e : Question → FilterError) (q : Question) (next : Bool → Inquiry) :
    ((asks q next).run (failing e) ()).1 = .error (e q) :=
  congrArg Prod.fst (run_asks_of_error (t := ()) rfl)

theorem run_failing_settled (e : Question → FilterError) (answer : Answer) :
    ((settled answer).run (failing e) ()).1 = answer := rfl

/-- How a question fails makes no difference to a result that is settled without it. -/
theorem exists_failing_ne (answer : Answer) (q : Question) (next : Bool → Inquiry) :
    ∃ e, ((settled answer).run (failing e) ()).1 ≠ ((asks q next).run (failing e) ()).1 := by
  by_contra hsame
  simp only [not_exists, ne_eq, not_not, run_failing, run_failing_settled] at hsame
  have happroximate := hsame fun _ => .notImplemented .approximate
  rw [hsame fun _ => .notImplemented .extensible] at happroximate
  cases happroximate

/-- Inquiries with the same results, whatever a matcher remembers, are the same. A matcher that
remembers what it was asked tells any two of them apart by the results alone. -/
theorem eq_of_results_eq {i j : Inquiry}
    (h : ∀ (σ : Type) (ask : Question → StateM σ Answer) (s : σ), (i.run ask s).1 = (j.run ask s).1) :
    i = j := by
  induction i generalizing j with
  | settled answer =>
    cases j with
    | settled answer' => exact congrArg settled (h Unit (failing fun _ => .notImplemented .approximate) ())
    | asks q next =>
      obtain ⟨e, hne⟩ := exists_failing_ne answer q next
      exact absurd (h Unit (failing e) ()) hne
  | asks q next ih =>
    cases j with
    | settled answer =>
      obtain ⟨e, hne⟩ := exists_failing_ne answer q next
      exact absurd (h Unit (failing e) ()).symm hne
    | asks q' next' =>
      -- The first question shows in how the matcher fails at it, what follows in how it goes on.
      obtain rfl : q' = q := by
        have hfailed := h Unit (failing fun p => .notImplemented (if p = q then .approximate else .extensible)) ()
        rw [run_failing, run_failing, if_pos rfl] at hfailed
        by_contra hne
        rw [if_neg hne] at hfailed
        cases hfailed
      refine congrArg (asks q') (funext fun b => ih b ?_)
      intro σ ask s
      have hfirst : answeringFirst b ask s q' none = (.ok b, some s) := rfl
      have hnext := h (Option σ) (answeringFirst b ask s) none
      rwa [run_asks_of_ok hfirst, run_asks_of_ok hfirst, run_answeringFirst, run_answeringFirst] at hnext

end Inquiry

namespace Filter

mutual

/-- What a filter asks, from left to right up to where its result is settled. -/
def inquiry (r : Record) (strict : Bool) : Filter → Inquiry
  | leaf a =>
    match a.question? with
    | some q => .asks q fun b => .settled (.ok b)
    | none => .settled (a.evaluate .unsupported r strict).1
  | negation f => (inquiry r strict f).andThen fun b => .settled (.ok !b)
  | junction c fs => inquiryAll r strict c fs

/-- What the clauses of a junction ask up to the first one that decides it or fails. -/
def inquiryAll (r : Record) (strict : Bool) (c : Connective) : List Filter → Inquiry
  | [] => .settled (.ok c.neutral)
  | f :: fs => (inquiry r strict f).andThen fun b =>
    if b = c.neutral then inquiryAll r strict c fs else .settled (.ok b)

end

variable {μ : Type → Type} [Monad μ] [LawfulMonad μ]

/-- Evaluating a filter is putting its questions. -/
theorem evaluateIn_eq_run (ask : Question → μ Answer) (r : Record) (strict : Bool) (f : Filter) :
    f.evaluateIn ask r strict = (f.inquiry r strict).run ask := by
  induction f with
  | leaf a =>
    rw [evaluateIn, inquiry]
    cases a.question? with
    | none => rfl
    | some q =>
      dsimp only
      rw [Inquiry.run]
      conv_lhs => rw [← bind_pure (ask q)]
      apply bind_congr
      intro answer
      cases answer <;> rfl
  | negation f ih =>
    rw [evaluateIn, inquiry, Inquiry.run_andThen, ih]
    apply bind_congr
    intro answer
    cases answer <;> simp [Inquiry.run, Except.map]
  | junction c fs ih =>
    rw [evaluateIn, inquiry]
    induction fs with
    | nil => rfl
    | cons f fs ihs =>
      rw [List.forall_mem_cons] at ih
      rw [evaluateAllIn, inquiryAll, Inquiry.run_andThen, ih.1]
      apply bind_congr
      intro answer
      cases answer with
      | error e => simp
      | ok b =>
        by_cases hb : b = c.neutral
        · simp only [hb, if_true]
          exact ihs ih.2
        · simp [hb, Inquiry.run]

end Filter

end SearchFilter
