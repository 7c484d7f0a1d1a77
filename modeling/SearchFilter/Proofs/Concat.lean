import Mathlib.Algebra.GroupWithZero.Nat
import Mathlib.Tactic.Common

namespace SearchFilter

/-- What stands for some things, one behind the other: octets or characters. -/
inductive Concat {α β : Type} (R : α → List β → Prop) : List α → List β → Prop where
  | nil : Concat R [] []
  | cons {a : α} {as : List α} {x y : List β} (ha : R a x) (has : Concat R as y) :
    Concat R (a :: as) (x ++ y)

namespace Concat

variable {α β : Type} {R S : α → List β → Prop} {as bs : List α} {x : List β}

theorem singleton {a : α} (ha : R a x) : Concat R [a] x := by
  simpa using cons ha nil

/-- A relation that holds of each thing and what stands for it may replace the one the list was made
with. -/
theorem imp (h : Concat R as x) (himp : ∀ a ∈ as, ∀ y, R a y → S a y) : Concat S as x := by
  induction h with
  | nil => exact nil
  | cons ha _ ih =>
    exact cons (himp _ List.mem_cons_self _ ha)
      (ih fun a hmem => himp a (List.mem_cons_of_mem _ hmem))

/-- Where something stands for each thing, something stands for the list of them. -/
theorem map_flatMap {γ : Type} {h : γ → α} {g : γ → List β} {cs : List γ}
    (hc : ∀ c ∈ cs, R (h c) (g c)) : Concat R (cs.map h) (cs.flatMap g) := by
  induction cs with
  | nil => exact nil
  | cons c cs ih =>
    rw [List.map_cons, List.flatMap_cons]
    exact cons (hc c List.mem_cons_self) (ih fun d hd => hc d (List.mem_cons_of_mem _ hd))

/-- What stands for one of the things is a part of what stands for all of them. -/
theorem exists_append_of_mem {a : α} (h : Concat R as x) (hmem : a ∈ as) :
    ∃ before y after, R a y ∧ x = before ++ y ++ after := by
  induction h with
  | nil => cases hmem
  | @cons b bs y z hb _ ih =>
    cases hmem with
    | head => exact ⟨[], y, z, hb, rfl⟩
    | tail _ hmem =>
      obtain ⟨before, w, after, hw, rfl⟩ := ih hmem
      exact ⟨y ++ before, w, after, hw, by simp⟩

theorem exists_of_mem {a : α} (h : Concat R as x) (hmem : a ∈ as) :
    ∃ y, R a y ∧ y.length ≤ x.length := by
  obtain ⟨before, y, after, hy, rfl⟩ := h.exists_append_of_mem hmem
  refine ⟨y, hy, ?_⟩
  rw [List.length_append, List.length_append]
  omega

/-- What stands for some things measures no less than the things weigh, if this is so for each of them. -/
theorem sum_le {m : List β → Nat} {w : α → Nat} (happend : ∀ x y, m (x ++ y) = m x + m y)
    (h : Concat R as x) (hle : ∀ a ∈ as, ∀ y, R a y → w a ≤ m y) : (as.map w).sum ≤ m x := by
  induction h with
  | nil => exact Nat.zero_le _
  | @cons a as y z ha _ ih =>
    have hfirst := hle a List.mem_cons_self y ha
    have hrest := ih fun b hb => hle b (List.mem_cons_of_mem _ hb)
    rw [List.map_cons, List.sum_cons, happend]
    omega

/-- What stands for some things is no shorter than what always stands for them in less room. -/
theorem length_flatMap_le {g : α → List β} (h : Concat R as x)
    (hle : ∀ a ∈ as, ∀ y, R a y → (g a).length ≤ y.length) : (as.flatMap g).length ≤ x.length := by
  rw [List.length_flatMap]
  exact h.sum_le (fun _ _ => List.length_append) hle

/-- There is one way to cut a list apart, if what stands for one thing can only start in one way. -/
theorem unique (hx : Concat R as x) (hy : Concat R bs x)
    (hnonempty : ∀ a y, R a y → y ≠ [])
    (hunique : ∀ a ∈ as, ∀ b y z p q, R a y → R b z → y ++ p = z ++ q → a = b ∧ y = z) :
    as = bs := by
  induction hx generalizing bs with
  | nil =>
    generalize hnil : ([] : List β) = z at hy
    cases hy with
    | nil => rfl
    | cons hb _ => exact absurd (List.append_eq_nil_iff.1 hnil.symm).1 (hnonempty _ _ hb)
  | @cons a as y p ha has ih =>
    generalize hcons : y ++ p = z at hy
    cases hy with
    | nil => exact absurd (List.append_eq_nil_iff.1 hcons).1 (hnonempty _ _ ha)
    | @cons b bs z q hb hbs =>
      obtain ⟨rfl, rfl⟩ := hunique a List.mem_cons_self b y z p q ha hb hcons
      obtain rfl := List.append_cancel_left hcons
      rw [ih hbs fun c hc => hunique c (List.mem_cons_of_mem _ hc)]

end Concat

end SearchFilter
