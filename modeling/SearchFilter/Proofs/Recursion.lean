import Mathlib.Logic.Function.Iterate
import Mathlib.Tactic.Common

namespace SearchFilter

/-- Unfolded `n` times or more, a recursion gives `b` where it is looked at, whatever stands in for
the calls that are left. The recursion is given by what one call does with a function that stands in
for the calls in it; it ends without a bound on its calls, as that function no longer matters. -/
def Settles {τ β : Type} (unfold : τ → τ) (look : τ → β) (n : Nat) (b : β) : Prop :=
  ∀ bottom d, n ≤ d → look (unfold^[d] bottom) = b

namespace Settles

section
variable {τ α β : Type} {unfold : τ → τ} (look : τ → α → β) (rank : α → Nat)
  (hunfold : ∀ f g a, (∀ b, rank b < rank a → look f b = look g b) → look (unfold f) a = look (unfold g) a)
include hunfold

/-- Where a call only depends on calls of a smaller rank, all unfoldings that go beyond the rank agree. -/
theorem iterate_eq (bottom bottom' : τ) {m n : Nat} {a : α} (hm : rank a < m) (hn : rank a < n) :
    look (unfold^[m] bottom) a = look (unfold^[n] bottom') a := by
  induction m generalizing n a with
  | zero => omega
  | succ m ih =>
    obtain ⟨n, rfl⟩ := Nat.exists_eq_add_one_of_ne_zero (Nat.ne_zero_of_lt hn)
    rw [Function.iterate_succ_apply', Function.iterate_succ_apply']
    exact hunfold _ _ a fun b hb => ih (by omega) (by omega)

/-- A recursion comes to an end where each call only depends on calls of a smaller rank, and it is
unfolded more often than the rank of its first one. -/
theorem of_rank_lt (bottom : τ) {n : Nat} {a : α} (hn : rank a < n) :
    Settles unfold (look · a) (rank a + 1) (look (unfold^[n] bottom) a) :=
  fun bottom' _ hd => iterate_eq look rank hunfold bottom' bottom (Nat.lt_of_succ_le hd) hn

/-- The calls that are left do not have to be unfolded where they would do nothing. -/
theorem of_rank_le {bottom : τ} (hbottom : ∀ a, rank a = 0 → look (unfold bottom) a = look bottom a) {n : Nat}
    {a : α} (hn : rank a ≤ n) :
    Settles unfold (look · a) (rank a + 1) (look (unfold^[n] bottom) a) := by
  have hmore {n : Nat} {a : α} (hn : rank a ≤ n) :
      look (unfold (unfold^[n] bottom)) a = look (unfold^[n] bottom) a := by
    induction n generalizing a with
    | zero => exact hbottom a (Nat.le_zero.1 hn)
    | succ n ih =>
      rw [Function.iterate_succ_apply']
      exact hunfold _ _ a fun b hb => ih (by omega)
  rw [← hmore hn, ← Function.iterate_succ_apply' unfold]
  exact of_rank_lt look rank hunfold bottom (Nat.lt_succ_of_le hn)

end

/-- A function that is given by how often it is unfolded is unfolded that often. -/
theorem eq_iterate {τ : Type} {unfold : τ → τ} (run : Nat → τ) (hsucc : ∀ n, run (n + 1) = unfold (run n))
    (n : Nat) : run n = unfold^[n] (run 0) := by
  induction n with
  | zero => rfl
  | succ n ih => rw [hsucc, ih, Function.iterate_succ_apply']

end Settles

end SearchFilter
