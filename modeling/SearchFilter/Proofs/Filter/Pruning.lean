import Mathlib.Tactic.Common
import SearchFilter.Proofs.Filter.Rewriting

namespace SearchFilter

/-- A leaf of a filter, with the kinds of the nodes that it stands under, the outermost first. -/
structure Branch where
  above : List Kind
  assertion : Assertion
  deriving DecidableEq, Repr

namespace Branch

/-- The branch below one more node. -/
def under (k : Kind) (b : Branch) : Branch :=
  { b with above := k :: b.above }

/-- The branch with what `φ` makes of its assertion, if anything. -/
def replace? (φ : Assertion → Option Assertion) (b : Branch) : Option Branch :=
  (φ b.assertion).map fun a => { b with assertion := a }

theorem filterMap_replace?_map_under (φ : Assertion → Option Assertion) (k : Kind) (bs : List Branch) :
    (bs.map (under k)).filterMap (replace? φ) = (bs.filterMap (replace? φ)).map (under k) := by
  rw [List.filterMap_map, List.map_filterMap]
  refine List.filterMap_congr fun b _ => ?_
  simp only [Function.comp_apply, replace?, under, Option.map_map]
  rfl

/-- The assertions of the branches that are left are those that are left of the assertions. -/
theorem map_assertion_filterMap_replace? (φ : Assertion → Option Assertion) (bs : List Branch) :
    (bs.filterMap (replace? φ)).map assertion = (bs.map assertion).filterMap φ := by
  rw [List.map_filterMap, List.filterMap_map]
  refine List.filterMap_congr fun b _ => ?_
  rw [replace?, Option.map_map]
  exact Option.map_id'

theorem replace?_guard (p : Assertion → Bool) :
    replace? (Option.guard p) = Option.guard fun b => p b.assertion := by
  funext b
  cases h : p b.assertion <;> simp [replace?, Option.guard, h]

end Branch

namespace Filter

mutual

/-- The leaves of a filter from left to right, each with the kinds of the nodes above it. -/
def branches : Filter → List Branch
  | leaf a => [⟨[], a⟩]
  | negation f => (branches f).map (.under .negation)
  | junction c fs => (branchesAll fs).map (.under (.junction c))

/-- The leaves of some filters, with the nodes above them in these. -/
def branchesAll : List Filter → List Branch
  | [] => []
  | f :: fs => branches f ++ branchesAll fs

end

theorem branchesAll_eq (fs : List Filter) : branchesAll fs = fs.flatMap branches := by
  induction fs with
  | nil => rfl
  | cons f fs ih => rw [branchesAll, ih, List.flatMap_cons]

theorem map_assertion_branches (f : Filter) : f.branches.map Branch.assertion = f.leaves := by
  have hunder (k : Kind) (bs : List Branch) :
      (bs.map (Branch.under k)).map Branch.assertion = bs.map Branch.assertion := by
    rw [List.map_map]
    rfl
  induction f with
  | leaf a => rfl
  | negation f ih => rw [branches, hunder, ih, leaves]
  | junction c fs ih =>
    rw [branches, hunder, branchesAll_eq, List.map_flatMap, leaves, leavesAll_eq]
    exact List.flatMap_congr ih

/-- Where every junction has a clause there is a leaf. -/
theorem Populated.leaves_ne_nil {f : Filter} (hf : f.Populated) : f.leaves ≠ [] := by
  induction hf with
  | leaf a => exact List.cons_ne_nil _ _
  | negation _ ih => exact ih
  | @junction c fs hne _ ih =>
    obtain ⟨f, fs, rfl⟩ := List.exists_cons_of_ne_nil hne
    rw [leaves, leavesAll]
    exact List.append_ne_nil_of_left_ne_nil (ih f List.mem_cons_self) _

/-- Whether a filter is what remains of another one where clauses are left out. -/
inductive RemainsOf : Filter → Filter → Prop where
  | leaf (a : Assertion) : RemainsOf (leaf a) (leaf a)
  | negation {g f : Filter} (h : RemainsOf g f) : RemainsOf (negation g) (negation f)
  | junction {c : Connective} {gs kept fs : List Filter} (hkept : kept.Sublist fs)
    (h : List.Forall₂ RemainsOf gs kept) : RemainsOf (junction c gs) (junction c fs)

/-- Puts in the place of a leaf what `φ` makes of its assertion, if anything, and keeps every other
node. A node goes just if nothing is left below it, so what is lost can be told from the leaves
alone. -/
def onLeaves (φ : Assertion → Option Assertion) : Filter → Option Filter
  | leaf a => (φ a).map leaf
  | f => some f

section
variable (φ : Assertion → Option Assertion)

theorem rewrite_onLeaves_leaf (a : Assertion) : rewrite (onLeaves φ) (leaf a) = (φ a).map leaf := rfl

theorem rewrite_onLeaves_negation (f : Filter) :
    rewrite (onLeaves φ) (negation f) = (rewrite (onLeaves φ) f).map negation := by
  rw [rewrite_negation, Option.map_eq_bind]
  rfl

/-- A junction stays over the clauses that are left, and goes with the last one. -/
theorem rewrite_onLeaves_junction (c : Connective) (fs : List Filter) :
    rewrite (onLeaves φ) (junction c fs) = if fs.filterMap (rewrite (onLeaves φ)) = [] then none
      else some (junction c (fs.filterMap (rewrite (onLeaves φ)))) :=
  rewrite_junction c fs

end

section
variable {φ ψ : Assertion → Option Assertion} {f g : Filter}

/-- No junction is left without clauses, not even one that had none before. -/
theorem populated_of_rewrite (h : rewrite (onLeaves φ) f = some g) : g.Populated := by
  refine rewrite_induction (P := fun _ g => g.Populated) ?_ ?_ ?_ h
  · intro a g hg
    obtain ⟨b, _, rfl⟩ := Option.map_eq_some_iff.1 hg
    exact .leaf b
  · rintro _ node _ hnode ⟨⟩
    exact .negation hnode
  · rintro c _ kept _ hkept hnodes ⟨⟩
    refine .junction hkept fun node hnode => ?_
    obtain ⟨_, _, hpopulated⟩ := hnodes node hnode
    exact hpopulated

/-- Changing or pruning leaves adds no level. -/
theorem depth_le_of_rewrite (h : rewrite (onLeaves φ) f = some g) : g.depth ≤ f.depth := by
  refine rewrite_induction (P := fun f g => g.depth ≤ f.depth) ?_ ?_ ?_ h
  · intro a g hg
    obtain ⟨b, _, rfl⟩ := Option.map_eq_some_iff.1 hg
    exact Nat.le_refl _
  · rintro f node _ hnode ⟨⟩
    exact Nat.succ_le_succ hnode
  · rintro c fs kept _ _ hnodes ⟨⟩
    rw [depth, depth, Nat.add_le_add_iff_right, depthAll_le_iff]
    intro node hnode
    obtain ⟨f, hf, hle⟩ := hnodes node hnode
    exact Nat.le_trans hle (depthAll_le_iff.1 (Nat.le_refl _) f hf)

/-- Where leaves are only pruned, what is left is what remains of the filter without some
clauses. -/
theorem remainsOf_of_rewrite (hφ : ∀ a b, φ a = some b → b = a) (h : rewrite (onLeaves φ) f = some g) :
    g.RemainsOf f := by
  induction f generalizing g with
  | leaf a =>
    obtain ⟨b, hb, rfl⟩ := Option.map_eq_some_iff.1 h
    rw [hφ a b hb]
    exact .leaf a
  | negation f ih =>
    rw [rewrite_onLeaves_negation] at h
    obtain ⟨g, hg, rfl⟩ := Option.map_eq_some_iff.1 h
    exact .negation (ih hg)
  | junction c fs ih =>
    rw [rewrite_onLeaves_junction] at h
    split_ifs at h
    obtain rfl := Option.some.inj h
    have hclauses : List.Forall₂ RemainsOf
        ((fs.filter fun f => (rewrite (onLeaves φ) f).isSome).filterMap (rewrite (onLeaves φ)))
        (fs.filter fun f => (rewrite (onLeaves φ) f).isSome) := by
      apply forall₂_filterMap
      intro f hf
      obtain ⟨hmem, hsome⟩ := List.mem_filter.1 hf
      obtain ⟨g, hg⟩ := Option.isSome_iff_exists.1 hsome
      exact ⟨g, hg, ih f hmem hg⟩
    have hkept : (fs.filter fun f => (rewrite (onLeaves φ) f).isSome).filterMap (rewrite (onLeaves φ)) =
        fs.filterMap (rewrite (onLeaves φ)) := by
      rw [List.filterMap_filter]
      refine List.filterMap_congr fun f _ => ?_
      cases rewrite (onLeaves φ) f <;> rfl
    exact .junction List.filter_sublist (hkept ▸ hclauses)

/-- What is made of the leaves is what is left, below nodes of the same kinds. -/
theorem branches_rewrite (φ : Assertion → Option Assertion) (f : Filter) :
    (rewrite (onLeaves φ) f).toList.flatMap branches = f.branches.filterMap (Branch.replace? φ) := by
  induction f with
  | leaf a =>
    rw [rewrite_onLeaves_leaf]
    cases h : φ a <;> simp [branches, Branch.replace?, h]
  | negation f ih =>
    rw [rewrite_onLeaves_negation, branches, Branch.filterMap_replace?_map_under, ← ih]
    cases rewrite (onLeaves φ) f <;> simp [branches]
  | junction c fs ih =>
    have hclauses : (fs.filterMap (rewrite (onLeaves φ))).flatMap branches =
        (branchesAll fs).filterMap (Branch.replace? φ) := by
      rw [List.filterMap_eq_flatMap_toList, List.flatMap_assoc, branchesAll_eq, List.filterMap_flatMap]
      exact List.flatMap_congr ih
    rw [branches, Branch.filterMap_replace?_map_under, ← hclauses, rewrite_onLeaves_junction]
    split_ifs with hnone
    · rw [hnone]
      rfl
    · simp [branches, branchesAll_eq]

/-- What is left has the branches that are left, in their order. -/
theorem branches_of_rewrite (h : rewrite (onLeaves φ) f = some g) :
    g.branches = f.branches.filterMap (Branch.replace? φ) := by
  rw [← branches_rewrite, h]
  exact (List.append_nil _).symm

/-- What is left has the leaves that are left, in their order. -/
theorem leaves_of_rewrite (h : rewrite (onLeaves φ) f = some g) : g.leaves = f.leaves.filterMap φ := by
  rw [← map_assertion_branches, ← map_assertion_branches, branches_of_rewrite h,
    Branch.map_assertion_filterMap_replace?]

/-- Everything is pruned just if every leaf is, since what is left has a leaf. -/
theorem rewrite_onLeaves_eq_none_iff : rewrite (onLeaves φ) f = none ↔ ∀ a ∈ f.leaves, φ a = none := by
  rw [← List.filterMap_eq_nil_iff]
  cases h : rewrite (onLeaves φ) f with
  | none =>
    have hbranches := branches_rewrite φ f
    rw [h] at hbranches
    rw [← map_assertion_branches, ← Branch.map_assertion_filterMap_replace?, ← hbranches]
    exact iff_of_true rfl rfl
  | some g =>
    rw [← leaves_of_rewrite h]
    exact iff_of_false (Option.some_ne_none g) (populated_of_rewrite h).leaves_ne_nil

/-- What the first rewriting prunes with its last leaf, the second one would have pruned. -/
theorem rewrite_rewrite_onLeaves (φ ψ : Assertion → Option Assertion) (f : Filter) :
    (rewrite (onLeaves φ) f).bind (rewrite (onLeaves ψ)) =
      rewrite (onLeaves fun a => (φ a).bind ψ) f := by
  induction f with
  | leaf a =>
    rw [rewrite_onLeaves_leaf, rewrite_onLeaves_leaf]
    cases φ a <;> rfl
  | negation f ih =>
    rw [rewrite_onLeaves_negation, rewrite_onLeaves_negation, ← ih]
    cases rewrite (onLeaves φ) f with
    | none => rfl
    | some g => exact rewrite_onLeaves_negation ψ g
  | junction c fs ih =>
    have hclauses : (fs.filterMap (rewrite (onLeaves φ))).filterMap (rewrite (onLeaves ψ)) =
        fs.filterMap (rewrite (onLeaves fun a => (φ a).bind ψ)) := by
      rw [List.filterMap_filterMap]
      exact List.filterMap_congr ih
    rw [rewrite_onLeaves_junction φ]
    -- With no clause left by the first rewriting the one pass is left none either. Otherwise the second
    -- one sees the junction again, with the clauses that the one pass has kept.
    split_ifs with hnone
    · rw [hnone, List.filterMap_nil] at hclauses
      rw [rewrite_onLeaves_junction, ← hclauses]
      rfl
    · rw [Option.bind_some, rewrite_onLeaves_junction, hclauses, rewrite_onLeaves_junction]

end

/-- Prunes the leaves whose assertion fails `p`, and keeps every other node. -/
def keepLeaves (p : Assertion → Bool) : Filter → Option Filter
  | leaf a => if p a then some (leaf a) else none
  | f => some f

/-- Pruning leaves is changing them where the change is none or all. -/
theorem keepLeaves_eq_onLeaves (p : Assertion → Bool) : keepLeaves p = onLeaves (Option.guard p) := by
  funext f
  cases f with
  | leaf a => cases h : p a <;> simp [keepLeaves, onLeaves, Option.guard, h]
  | _ => rfl

/-- Pruning leaves loses and duplicates nothing else. All is pruned just if no leaf is kept. Otherwise the
leaves that are kept are left in their order, each under nodes of the same kinds as before, in a filter
that is no deeper and whose junctions all have clauses. Of the clauses some are left out, and none is put
in another place. -/
theorem pruning_keeps_other_leaves (p : Assertion → Bool) (f : Filter) :
    (f.rewrite (keepLeaves p) = none ↔ ¬∃ a ∈ f.leaves, p a = true) ∧
      ∀ g, f.rewrite (keepLeaves p) = some g →
        g.leaves = f.leaves.filter p ∧ g.Populated ∧ g.depth ≤ f.depth ∧
          g.branches = (f.branches.filter fun b => p b.assertion) ∧ g.RemainsOf f := by
  rw [keepLeaves_eq_onLeaves]
  refine ⟨?_, fun g hg => ⟨?_, populated_of_rewrite hg, depth_le_of_rewrite hg, ?_, ?_⟩⟩
  · rw [rewrite_onLeaves_eq_none_iff]
    simp
  · rw [leaves_of_rewrite hg, List.filterMap_eq_filter]
  · rw [branches_of_rewrite hg, Branch.replace?_guard, List.filterMap_eq_filter]
  · refine remainsOf_of_rewrite (fun a b hb => ?_) hg
    exact (Option.guard_eq_some_iff.1 hb).1.symm

/-- A filter with two leaves that are the same, and with a junction that has no clauses. -/
def overgrown : Filter :=
  .and [leaf (.presence "mail"), .or [negation (leaf (.presence "uid")), .and []],
    negation (.or [leaf (.presence "uid"), leaf (.presence "cn"), leaf (.presence "cn")])]

/-- What is left of it where nothing may be asked about one attribute. -/
def cutBack : Filter :=
  .and [leaf (.presence "mail"), negation (.or [leaf (.presence "cn"), leaf (.presence "cn")])]

/-- Both of the equal leaves go or stay, the junction without clauses goes, and nothing is left
where no leaf passes. -/
theorem overgrown_cut_back :
    overgrown.rewrite (keepLeaves (· != .presence "uid")) = some cutBack ∧
      cutBack.leaves = overgrown.leaves.filter (· != .presence "uid") ∧ cutBack.Populated ∧
      cutBack.depth ≤ overgrown.depth ∧
      cutBack.branches = overgrown.branches.filter (fun b => b.assertion != .presence "uid") ∧
      cutBack.RemainsOf overgrown ∧
      overgrown.rewrite (keepLeaves (· == .empty)) = none := by
  have hpruned : overgrown.rewrite (keepLeaves (· != .presence "uid")) = some cutBack := by cbv
  obtain ⟨hleaves, hpopulated, hdepth, hbranches, hremains⟩ :=
    (pruning_keeps_other_leaves _ overgrown).2 _ hpruned
  exact ⟨hpruned, hleaves, hpopulated, hdepth, hbranches, hremains,
    (pruning_keeps_other_leaves (· == .empty) overgrown).1.2 (by decide)⟩

/-- Whether a callback keeps junctions and negations, and prunes a leaf or puts a leaf in its place. -/
structure RewritesLeaves (g : Filter → Option Filter) : Prop where
  leaf {a : Assertion} {f : Filter} : g (leaf a) = some f → ∃ b, f = .leaf b
  negation (f : Filter) : g (negation f) = some (.negation f)
  junction (c : Connective) (fs : List Filter) : g (junction c fs) = some (.junction c fs)

/-- A callback of this kind is known from what it makes of assertions. -/
theorem RewritesLeaves.exists_eq_onLeaves {g : Filter → Option Filter} (hg : RewritesLeaves g) :
    ∃ φ, g = onLeaves φ := by
  have hleaf (a : Assertion) : ∃ b? : Option Assertion, g (.leaf a) = b?.map .leaf := by
    cases h : g (.leaf a) with
    | none => exact ⟨none, rfl⟩
    | some f =>
      obtain ⟨b, rfl⟩ := hg.leaf h
      exact ⟨some b, rfl⟩
  choose φ hφ using hleaf
  refine ⟨φ, funext fun f => ?_⟩
  cases f with
  | leaf a => exact hφ a
  | negation f => exact hg.negation f
  | junction c fs => exact hg.junction c fs

/-- Keeps junctions and negations, and passes what `g` makes of a leaf to `h`. -/
def inOnePass (g h : Filter → Option Filter) : Filter → Option Filter
  | leaf a => (g (leaf a)).bind h
  | f => some f

/-- One callback behind the other makes of an assertion what the second one makes of the result of
the first. -/
theorem inOnePass_onLeaves (φ ψ : Assertion → Option Assertion) :
    inOnePass (onLeaves φ) (onLeaves ψ) = onLeaves fun a => (φ a).bind ψ := by
  funext f
  cases f with
  | leaf a => cases h : φ a <;> simp [inOnePass, onLeaves, h]
  | _ => rfl

/-- Two rewritings that only change or prune leaves are one, whose callback takes each leaf through both
callbacks. Where the first one prunes all, so does the one. -/
theorem leaf_rewritings_fuse {g h : Filter → Option Filter} (hg : RewritesLeaves g)
    (hh : RewritesLeaves h) (f : Filter) :
    (f.rewrite g).bind (rewrite h) = f.rewrite (inOnePass g h) := by
  obtain ⟨φ, rfl⟩ := hg.exists_eq_onLeaves
  obtain ⟨ψ, rfl⟩ := hh.exists_eq_onLeaves
  rw [rewrite_rewrite_onLeaves, inOnePass_onLeaves]

theorem rewritesLeaves_keepLeaves (p : Assertion → Bool) : RewritesLeaves (keepLeaves p) where
  leaf {a f} h := by
    rw [keepLeaves] at h
    split_ifs at h
    exact ⟨a, (Option.some.inj h).symm⟩
  negation _ := rfl
  junction _ _ := rfl

/-- Asks for the attribute `new` in the place of `old` to be there, and keeps every other node. -/
def askedInstead (old new : String) : Filter → Option Filter
  | leaf (.presence name) => some (leaf (.presence (if name = old then new else name)))
  | f => some f

theorem rewritesLeaves_askedInstead (old new : String) : RewritesLeaves (askedInstead old new) where
  leaf {a f} h := by
    cases a <;> exact ⟨_, (Option.some.inj h).symm⟩
  negation _ := rfl
  junction _ _ := rfl

/-- Of the clauses that are left for the second rewriting, it only leaves one. -/
theorem overgrown_cut_in_one_pass :
    RewritesLeaves (askedInstead "cn" "uid") ∧ RewritesLeaves (keepLeaves (· != .presence "uid")) ∧
      (overgrown.rewrite (askedInstead "cn" "uid")).bind (rewrite (keepLeaves (· != .presence "uid"))) =
        some (.and [leaf (.presence "mail")]) ∧
      overgrown.rewrite (inOnePass (askedInstead "cn" "uid") (keepLeaves (· != .presence "uid"))) =
        some (.and [leaf (.presence "mail")]) := by
  have hasked := rewritesLeaves_askedInstead "cn" "uid"
  have hkept := rewritesLeaves_keepLeaves (· != .presence "uid")
  have htwice : (overgrown.rewrite (askedInstead "cn" "uid")).bind
      (rewrite (keepLeaves (· != .presence "uid"))) = some (.and [leaf (.presence "mail")]) := by
    cbv
  exact ⟨hasked, hkept, htwice, (leaf_rewritings_fuse hasked hkept overgrown).symm.trans htwice⟩

end Filter

end SearchFilter
