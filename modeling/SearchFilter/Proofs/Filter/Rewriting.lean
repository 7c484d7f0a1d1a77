import Mathlib.Data.List.Forall2
import Mathlib.Tactic.Common
import SearchFilter.Proofs.Filter.Tree

namespace SearchFilter.Filter

variable {g : Filter → Option Filter}

theorem rewriteTraceAll_fst (g : Filter → Option Filter) (fs : List Filter) :
    (rewriteTraceAll g fs).1 = fs.filterMap (rewrite g) := by
  induction fs with
  | nil => rfl
  | cons f fs ih =>
    rw [rewriteTraceAll, List.filterMap_cons]
    change (rewrite g f).toList ++ (rewriteTraceAll g fs).1 = _
    rw [ih]
    cases rewrite g f <;> rfl

theorem rewrite_leaf (a : Assertion) : rewrite g (leaf a) = g (leaf a) := rfl

/-- A negation is rewritten from what became of its filter, and pruned with it. -/
theorem rewrite_negation (f : Filter) :
    rewrite g (negation f) = (rewrite g f).bind fun f' => g (negation f') := by
  rw [rewrite, rewriteTrace]
  unfold rewrite
  rcases rewriteTrace g f with ⟨_ | f', seen⟩ <;> rfl

/-- A junction is rewritten from the clauses that were kept, and pruned if there are none. -/
theorem rewrite_junction (c : Connective) (fs : List Filter) :
    rewrite g (junction c fs) = if fs.filterMap (rewrite g) = [] then none
      else g (junction c (fs.filterMap (rewrite g))) := by
  rw [rewrite, rewriteTrace, ← rewriteTraceAll_fst]
  rcases rewriteTraceAll g fs with ⟨_ | ⟨f, kept⟩, seen⟩ <;> rfl

/-- What rewriting makes of a filter, from what it has made of the clauses that were kept. -/
theorem rewrite_induction {P : Filter → Filter → Prop}
    (leaf : ∀ a f', g (leaf a) = some f' → P (leaf a) f')
    (negation : ∀ f node f', P f node → g (negation node) = some f' → P (negation f) f')
    (junction : ∀ c fs kept f', kept ≠ [] → (∀ node ∈ kept, ∃ f ∈ fs, P f node) →
      g (junction c kept) = some f' → P (junction c fs) f')
    {f f' : Filter} (h : rewrite g f = some f') : P f f' := by
  induction f generalizing f' with
  | leaf a => exact leaf a f' h
  | negation f ih =>
    rw [rewrite_negation, Option.bind_eq_some_iff] at h
    obtain ⟨node, hnode, hf'⟩ := h
    exact negation f node f' (ih hnode) hf'
  | junction c fs ih =>
    rw [rewrite_junction] at h
    split_ifs at h with hnone
    refine junction c fs _ f' hnone (fun node hnode => ?_) h
    obtain ⟨f, hf, hkept⟩ := List.mem_filterMap.1 hnode
    exact ⟨f, hf, ih f hf hkept⟩

/-- The nodes that rewriting shows to `g`, in order. -/
def shown (g : Filter → Option Filter) (f : Filter) : List Filter :=
  (rewriteTrace g f).2

theorem shown_leaf (a : Assertion) : shown g (leaf a) = [leaf a] := rfl

/-- A negation is shown behind what it negates, unless that was pruned. -/
theorem shown_negation (f : Filter) :
    shown g (negation f) = shown g f ++ (rewrite g f).toList.map negation := by
  rw [shown, rewriteTrace]
  unfold shown rewrite
  rcases rewriteTrace g f with ⟨_ | f', seen⟩
  · exact (List.append_nil seen).symm
  · rfl

theorem rewriteTraceAll_snd (g : Filter → Option Filter) (fs : List Filter) :
    (rewriteTraceAll g fs).2 = fs.flatMap (shown g) := by
  induction fs with
  | nil => rfl
  | cons f fs ih =>
    rw [List.flatMap_cons, ← ih]
    rfl

/-- A junction is shown behind all its clauses, unless none was kept. -/
theorem shown_junction (c : Connective) (fs : List Filter) :
    shown g (junction c fs) = fs.flatMap (shown g) ++ if fs.filterMap (rewrite g) = [] then []
      else [junction c (fs.filterMap (rewrite g))] := by
  rw [shown, rewriteTrace, ← rewriteTraceAll_fst, ← rewriteTraceAll_snd]
  rcases rewriteTraceAll g fs with ⟨_ | ⟨f, kept⟩, seen⟩
  · exact (List.append_nil seen).symm
  · rfl

/-- Whether every junction in a filter has a clause. -/
inductive Populated : Filter → Prop where
  | leaf (a : Assertion) : Populated (leaf a)
  | negation {f : Filter} (hf : Populated f) : Populated (negation f)
  | junction {c : Connective} {fs : List Filter} (hne : fs ≠ []) (hfs : ∀ f ∈ fs, Populated f) :
    Populated (junction c fs)

/-- Whether a transitive relation is kept by building nodes over related clauses. A rewriting that
keeps to such a relation at every node keeps to it as a whole. -/
structure IsCongruence (R : Filter → Filter → Prop) : Prop where
  trans {f g h : Filter} : R f g → R g h → R f h
  negation {f g : Filter} : R f g → R (negation f) (negation g)
  junction {c : Connective} {fs gs : List Filter} : List.Forall₂ R fs gs →
    R (junction c fs) (junction c gs)

/-- Where a function gives a related thing for each member of a list, it leaves out none. -/
theorem forall₂_filterMap {α β : Type} {R : β → α → Prop} {g : α → Option β} {as : List α}
    (h : ∀ a ∈ as, ∃ b, g a = some b ∧ R b a) : List.Forall₂ R (as.filterMap g) as := by
  induction as with
  | nil => exact .nil
  | cons a as ih =>
    rw [List.forall_mem_cons] at h
    obtain ⟨b, hb, hrelated⟩ := h.1
    rw [List.filterMap_cons_some hb]
    exact .cons hrelated (ih h.2)

/-- If each node that is shown gives way to a related one, nothing is pruned, and the whole filter gives
way to a related one. -/
theorem exists_rewrite_of_congruence {R : Filter → Filter → Prop} (hR : IsCongruence R) {f : Filter}
    (hf : f.Populated) (hg : ∀ node ∈ shown g f, ∃ node', g node = some node' ∧ R node' node) :
    ∃ f', rewrite g f = some f' ∧ R f' f := by
  induction f with
  | leaf a =>
    rw [shown_leaf] at hg
    exact hg _ (List.mem_singleton_self _)
  | negation f ih =>
    rw [shown_negation] at hg
    cases hf with
    | negation hf =>
      obtain ⟨f', hf', hrelated⟩ := ih hf fun node hnode => hg node (List.mem_append_left _ hnode)
      rw [rewrite_negation, hf']
      obtain ⟨h, hh, hnode⟩ := hg (negation f') (by simp [hf'])
      exact ⟨h, hh, hR.trans hnode (hR.negation hrelated)⟩
  | junction c fs ih =>
    rw [shown_junction] at hg
    cases hf with
    | junction hne hfs =>
      have hclauses : List.Forall₂ R (fs.filterMap (rewrite g)) fs := by
        apply forall₂_filterMap
        intro f hmem
        apply ih f hmem (hfs f hmem)
        intro node hnode
        exact hg node (List.mem_append_left _ (List.mem_flatMap.2 ⟨f, hmem, hnode⟩))
      have hkept : fs.filterMap (rewrite g) ≠ [] := by
        intro hnone
        rw [hnone, List.forall₂_nil_left_iff] at hclauses
        exact hne hclauses
      rw [rewrite_junction, if_neg hkept]
      obtain ⟨h, hh, hnode⟩ := hg (junction c (fs.filterMap (rewrite g))) (by simp [hkept])
      exact ⟨h, hh, hR.trans hnode (hR.junction hclauses)⟩

end SearchFilter.Filter
