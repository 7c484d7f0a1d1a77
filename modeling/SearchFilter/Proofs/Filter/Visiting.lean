import Mathlib.Data.List.Perm.Basic
import Mathlib.Data.List.Nodup
import Mathlib.Tactic.Common
import SearchFilter.Proofs.Filter.Pruning

namespace SearchFilter.Filter

/-- The node at a place, which is given by the clause to go to at each level, from the root down. -/
def nodeAt? : Filter → List Nat → Option Filter
  | f, [] => some f
  | f, i :: p => f.clauses[i]?.bind fun g => nodeAt? g p

/-- Whether the node at one place is visited before the node at another: those below a node come
before it, and those in one clause before those in the next. Nodes that are equal may stand at
several places, so this is an order of places. -/
inductive VisitedBefore : List Nat → List Nat → Prop where
  /-- A node comes after all that is below it. -/
  | descendant (i : Nat) (p : List Nat) : VisitedBefore (i :: p) []
  /-- An earlier clause comes first. -/
  | aside {i j : Nat} (hij : i < j) (p q : List Nat) : VisitedBefore (i :: p) (j :: q)
  | inside (i : Nat) {p q : List Nat} (h : VisitedBefore p q) : VisitedBefore (i :: p) (i :: q)

/-- Whether some nodes are those of a filter, each place taken once, children before their parent and
from left to right. -/
def InPostorder (f : Filter) (nodes : List Filter) : Prop :=
  ∃ places : List (List Nat), places.Pairwise VisitedBefore ∧
    (∀ p, p ∈ places ↔ ∃ g, f.nodeAt? p = some g) ∧ places.map f.nodeAt? = nodes.map some

/-- Of two places at most one is visited before the other. -/
theorem VisitedBefore.asymm {p q : List Nat} (hpq : VisitedBefore p q) : ¬VisitedBefore q p := by
  induction hpq with
  | descendant i p => exact nofun
  | aside hij p q =>
    intro hqp
    cases hqp with
    | aside hji _ _ => exact Nat.lt_asymm hij hji
    | inside _ _ => exact Nat.lt_irrefl _ hij
  | inside i _ ih =>
    intro hqp
    cases hqp with
    | aside hii _ _ => exact Nat.lt_irrefl _ hii
    | inside _ h => exact ih h

/-- In an order of visits no place comes twice. -/
theorem nodup_of_pairwise_visitedBefore {places : List (List Nat)} (h : places.Pairwise VisitedBefore) :
    places.Nodup :=
  h.imp fun hpq heq => (heq ▸ hpq).asymm (heq ▸ hpq)

/-- There is one way only to go through a filter in this order. -/
theorem InPostorder.unique {f : Filter} {nodes nodes' : List Filter} (h : f.InPostorder nodes)
    (h' : f.InPostorder nodes') : nodes = nodes' := by
  obtain ⟨places, hordered, hplaces, hnodes⟩ := h
  obtain ⟨places', hordered', hplaces', hnodes'⟩ := h'
  have hperm : places.Perm places' := by
    rw [List.perm_ext_iff_of_nodup (nodup_of_pairwise_visitedBefore hordered)
      (nodup_of_pairwise_visitedBefore hordered')]
    exact fun p => (hplaces p).trans (hplaces' p).symm
  obtain rfl : places = places' :=
    hperm.eq_of_pairwise (fun p q _ _ hpq hqp => absurd hqp hpq.asymm) hordered hordered'
  exact (List.map_inj_right fun _ _ => Option.some.inj).1 (hnodes.symm.trans hnodes')

mutual

/-- The places of the nodes of a filter, in the order in which they are visited. -/
def places : Filter → List (List Nat)
  | leaf _ => [[]]
  | negation f => (places f).map (0 :: ·) ++ [[]]
  | junction _ fs => placesFrom 0 fs ++ [[]]

/-- The places of the nodes in some clauses, where the first one is the `i`-th. -/
def placesFrom : Nat → List Filter → List (List Nat)
  | _, [] => []
  | i, f :: fs => (places f).map (i :: ·) ++ placesFrom (i + 1) fs

end

/-- Induction over a filter by its clauses, where the kinds of nodes do not matter. -/
@[elab_as_elim]
theorem induction_clauses {motive : Filter → Prop} (h : ∀ f, (∀ g ∈ f.clauses, motive g) → motive f)
    (f : Filter) : motive f := by
  induction f with
  | leaf a => exact h _ (List.forall_mem_nil _)
  | negation f ih => exact h _ (List.forall_mem_singleton.2 ih)
  | junction c fs ih => exact h _ ih

theorem places_eq (f : Filter) : f.places = placesFrom 0 f.clauses ++ [[]] := by
  cases f with
  | leaf a => rfl
  | negation f => rw [places, clauses, placesFrom, placesFrom, List.append_nil]
  | junction c fs => rfl

theorem visits_eq (f : Filter) : f.visits = f.clauses.flatMap visits ++ [f] := by
  cases f with
  | leaf a => rfl
  | negation f => rw [visits, clauses, List.flatMap_singleton]
  | junction c fs => rw [visits, visitsAll_eq, clauses]

/-- The places in some clauses are those in one of them, behind its number. -/
theorem mem_placesFrom {i : Nat} {fs : List Filter} {p : List Nat} :
    p ∈ placesFrom i fs ↔ ∃ j f q, fs[j]? = some f ∧ p = (i + j) :: q ∧ q ∈ f.places := by
  induction fs generalizing i with
  | nil => simp [placesFrom]
  | cons f fs ih =>
    rw [placesFrom, List.mem_append, List.mem_map, ih]
    constructor
    · rintro (⟨q, hq, rfl⟩ | ⟨j, g, q, hg, rfl, hq⟩)
      · exact ⟨0, f, q, rfl, rfl, hq⟩
      · exact ⟨j + 1, g, q, hg, by rw [Nat.add_assoc, Nat.add_comm 1], hq⟩
    · rintro ⟨_ | j, g, q, hg, rfl, hq⟩
      · exact .inl ⟨q, Option.some.inj hg ▸ hq, rfl⟩
      · exact .inr ⟨j, g, q, hg, by rw [Nat.add_assoc, Nat.add_comm 1], hq⟩

/-- The places of a filter are those where a node is found. -/
theorem mem_places {f : Filter} {p : List Nat} : p ∈ f.places ↔ ∃ g, f.nodeAt? p = some g := by
  induction f using induction_clauses generalizing p with
  | h f ih =>
    rw [places_eq, List.mem_append, List.mem_singleton, mem_placesFrom]
    cases p with
    | nil => simp [nodeAt?]
    | cons i p =>
      simp only [nodeAt?, Option.bind_eq_some_iff, List.cons.injEq, reduceCtorEq, or_false, Nat.zero_add]
      constructor
      · rintro ⟨_, g, _, hg, ⟨rfl, rfl⟩, hp⟩
        obtain ⟨node, hnode⟩ := (ih g (List.mem_of_getElem? hg)).1 hp
        exact ⟨node, g, hg, hnode⟩
      · rintro ⟨node, g, hg, hnode⟩
        exact ⟨i, g, p, hg, ⟨rfl, rfl⟩, (ih g (List.mem_of_getElem? hg)).2 ⟨node, hnode⟩⟩

/-- The places in clauses that follow each other are listed in the order of visits, if this holds of
each clause. -/
theorem pairwise_placesFrom {fs : List Filter} (h : ∀ f ∈ fs, f.places.Pairwise VisitedBefore) (i : Nat) :
    (placesFrom i fs).Pairwise VisitedBefore := by
  induction fs generalizing i with
  | nil => exact .nil
  | cons f fs ih =>
    rw [List.forall_mem_cons] at h
    rw [placesFrom, List.pairwise_append, List.pairwise_map]
    refine ⟨h.1.imp (.inside i), ih h.2 (i + 1), fun p hp q hq => ?_⟩
    obtain ⟨p, _, rfl⟩ := List.mem_map.1 hp
    obtain ⟨j, _, q, _, rfl, _⟩ := mem_placesFrom.1 hq
    exact .aside (by omega) p q

/-- The places are listed in the order in which they are visited. -/
theorem pairwise_places (f : Filter) : f.places.Pairwise VisitedBefore := by
  induction f using induction_clauses with
  | h f ih =>
    rw [places_eq, List.pairwise_append]
    refine ⟨pairwise_placesFrom ih 0, List.pairwise_singleton _ _, fun p hp q hq => ?_⟩
    obtain ⟨j, _, p, _, rfl, _⟩ := mem_placesFrom.1 hp
    rw [List.mem_singleton.1 hq]
    exact .descendant _ p

/-- What is found at the places of some clauses are their nodes, wherever the look-up goes through. -/
theorem map_placesFrom {look : List Nat → Option Filter} {i : Nat} {fs : List Filter}
    (hfs : ∀ f ∈ fs, f.places.map f.nodeAt? = f.visits.map some)
    (hlook : ∀ j f q, fs[j]? = some f → look ((i + j) :: q) = f.nodeAt? q) :
    (placesFrom i fs).map look = (fs.flatMap visits).map some := by
  induction fs generalizing i with
  | nil => rfl
  | cons f fs ih =>
    rw [List.forall_mem_cons] at hfs
    have hfirst : ((places f).map (i :: ·)).map look = f.visits.map some := by
      rw [List.map_map, ← hfs.1]
      exact List.map_congr_left fun q _ => hlook 0 f q rfl
    have hothers : (placesFrom (i + 1) fs).map look = (fs.flatMap visits).map some := by
      refine ih hfs.2 fun j g q hg => ?_
      rw [Nat.add_assoc, Nat.add_comm 1]
      exact hlook (j + 1) g q hg
    rw [placesFrom, List.map_append, hfirst, hothers, List.flatMap_cons, List.map_append]

/-- At the places, in their order, stand the nodes that are visited. -/
theorem map_nodeAt?_places (f : Filter) : f.places.map f.nodeAt? = f.visits.map some := by
  induction f using induction_clauses with
  | h f ih =>
    rw [places_eq, visits_eq, List.map_append, List.map_append]
    refine congrArg (· ++ _) (map_placesFrom ih fun j g q hg => ?_)
    rw [nodeAt?, Nat.zero_add, hg]
    rfl

/-- To go through a filter in postorder is to visit its nodes. -/
theorem inPostorder_iff {f : Filter} {nodes : List Filter} : f.InPostorder nodes ↔ nodes = f.visits := by
  have hvisits : f.InPostorder f.visits :=
    ⟨f.places, f.pairwise_places, fun _ => mem_places, f.map_nodeAt?_places⟩
  constructor
  · intro h
    exact h.unique hvisits
  · rintro rfl
    exact hvisits

theorem leaf_mem_visits {f : Filter} {a : Assertion} : leaf a ∈ f.visits ↔ a ∈ f.leaves := by
  induction f with
  | leaf b => simp [visits, leaves]
  | negation f ih => simp [visits, leaves, ih]
  | junction c fs ih =>
    simp only [visits, leaves, visitsAll_eq, leavesAll_eq, List.mem_append, List.mem_flatMap,
      List.mem_singleton, reduceCtorEq, or_false]
    exact exists_congr fun f => and_congr_right fun hf => ih f hf

/-- A filter without leaves ends in junctions without clauses. -/
theorem leaves_eq_nil_iff {f : Filter} :
    f.leaves = [] ↔ ∀ node ∈ f.visits, node.clauses = [] → ∃ c, node = junction c [] := by
  rw [List.eq_nil_iff_forall_not_mem]
  constructor
  · intro hnone node hnode hclauses
    cases node with
    | leaf a => exact absurd (leaf_mem_visits.1 hnode) (hnone a)
    | negation f => cases hclauses
    | junction c fs => exact ⟨c, congrArg (junction c) hclauses⟩
  · intro h a ha
    obtain ⟨c, hc⟩ := h (leaf a) (leaf_mem_visits.2 ha) rfl
    cases hc

theorem onLeaves_some : onLeaves some = some := by
  funext f
  cases f <;> rfl

/-- Even if every node that is shown is kept, no junction without clauses is left. -/
theorem populated_of_rewrite_some {f g : Filter} (h : f.rewrite some = some g) : g.Populated := by
  have hleaves : rewrite (onLeaves some) f = some g := by rw [onLeaves_some, h]
  exact populated_of_rewrite hleaves

/-- If every node that is shown is kept, all is pruned just where there are no leaves. -/
theorem rewrite_some_eq_none_iff {f : Filter} : f.rewrite some = none ↔ f.leaves = [] := by
  rw [← onLeaves_some, rewrite_onLeaves_eq_none_iff, List.eq_nil_iff_forall_not_mem]
  exact forall₂_congr fun a _ => iff_of_false (Option.some_ne_none a) id

/-- Rewriting that keeps every node changes nothing just where no junction has to go. -/
theorem rewrite_some_eq_self_iff {f : Filter} : f.rewrite some = some f ↔ f.Populated := by
  constructor
  · exact populated_of_rewrite_some
  · intro hf
    have hequal : IsCongruence (· = ·) :=
      { trans := Eq.trans
        negation := congrArg negation
        junction := fun h => congrArg _ (List.forall₂_eq_eq_eq ▸ h) }
    obtain ⟨g, hg, rfl⟩ := exists_rewrite_of_congruence hequal hf fun node _ => ⟨node, rfl, rfl⟩
    exact hg

/-- The nodes that are shown are those of what is left: a node that goes for want of clauses is not shown
before. -/
theorem shown_some (f : Filter) : shown some f = (f.rewrite some).toList.flatMap visits := by
  induction f with
  | leaf a => rfl
  | negation f ih =>
    rw [shown_negation, rewrite_negation, ih]
    cases f.rewrite some with
    | none => rfl
    | some g => simp [visits]
  | junction c fs ih =>
    have hclauses : fs.flatMap (shown some) = (fs.filterMap (rewrite some)).flatMap visits := by
      rw [List.filterMap_eq_flatMap_toList, List.flatMap_assoc]
      exact List.flatMap_congr ih
    rw [shown_junction, rewrite_junction, hclauses]
    split_ifs with hnone
    · rw [hnone]
      rfl
    · simp [visits, visitsAll_eq]

/-- Rewriting that keeps every node it is shown changes nothing just if every junction has a clause. Nothing
is left, and nothing was shown, just if the filter ends in junctions without clauses everywhere. Otherwise
what is left has none of these and stays as it is under this rewriting, and its nodes are shown as they are
visited: each once, children before their parent and from left to right. -/
theorem identity_rewriting_shows_visits (f : Filter) :
    (f.rewrite some = some f ↔ f.Populated) ∧
      (f.rewrite some = none ↔ ∀ node ∈ f.visits, node.clauses = [] → ∃ c, node = junction c []) ∧
      (f.rewrite some = none → shown some f = []) ∧
      ∀ g, f.rewrite some = some g →
        g.Populated ∧ g.rewrite some = some g ∧ shown some f = g.visits ∧
          ∀ nodes, g.InPostorder nodes ↔ nodes = g.visits := by
  refine ⟨rewrite_some_eq_self_iff, rewrite_some_eq_none_iff.trans leaves_eq_nil_iff, fun hnone => ?_,
    fun g hg => ?_⟩
  · rw [shown_some, hnone]
    rfl
  · have hpopulated := populated_of_rewrite_some hg
    refine ⟨hpopulated, rewrite_some_eq_self_iff.2 hpopulated, ?_, fun nodes => inPostorder_iff⟩
    rw [shown_some, hg]
    exact List.append_nil _

/-- Junctions without clauses, below a negation and beside a leaf. -/
def hollow : Filter :=
  .and [negation (.or [.and []]), .or [leaf (.presence "cn"), .or []], leaf (.presence "cn")]

/-- The junctions without clauses go, the negation with them, and what is left is not changed
again. -/
theorem hollow_filled :
    ∃ g, hollow.rewrite some = some g ∧ g.Populated ∧ g.rewrite some = some g ∧
      shown some hollow = g.visits ∧ g.InPostorder (shown some hollow) ∧
      hollow.rewrite some ≠ some hollow ∧
      (negation (.or [.and []])).rewrite some = none ∧ shown some (negation (.or [.and []])) = [] := by
  have hrewrite : hollow.rewrite some =
      some (.and [.or [leaf (.presence "cn")], leaf (.presence "cn")]) := rfl
  obtain ⟨hpopulated, hself, hshown, horder⟩ := (identity_rewriting_shows_visits hollow).2.2.2 _ hrewrite
  have hnone : (negation (.or [.and []])).rewrite some = none := rfl
  refine ⟨_, hrewrite, hpopulated, hself, hshown, (horder _).2 hshown, ?_, hnone,
    (identity_rewriting_shows_visits _).2.2.1 hnone⟩
  rw [hrewrite]
  simp [hollow]

end SearchFilter.Filter
