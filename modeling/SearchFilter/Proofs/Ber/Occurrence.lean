import Mathlib.Tactic.Common
import SearchFilter.Proofs.Ber.Fields

namespace SearchFilter.Ber

/-- Whether the content of an element with this tag is made of elements. -/
def IsConstructed (t : UInt8) : Prop :=
  t &&& 0x20 ≠ 0

instance (t : UInt8) : Decidable (IsConstructed t) :=
  inferInstanceAs (Decidable (t &&& 0x20 ≠ 0))

/-- An element with tag `t`, length octets `l` and content `c` is one of those that some octets are
made of, or occurs in the content of one of them. A bit of its tag says whether the content of an
element is made of elements in turn, so which elements occur does not depend on what they encode. -/
inductive Occurs (t : UInt8) (l c : Octets) : Octets → Prop where
  | here (hl : LengthOctets c.length l) (rest : Octets) : Occurs t l c (t :: l ++ c ++ rest)
  | behind {u : UInt8} {d x rest : Octets} (hx : IsElement u d x) (h : Occurs t l c rest) :
    Occurs t l c (x ++ rest)
  | inside {u : UInt8} {d x : Octets} (hx : IsElement u d x) (hu : IsConstructed u)
    (h : Occurs t l c d) (rest : Octets) : Occurs t l c (x ++ rest)

/-- Every element that occurs in some octets has a property, told its tag, length octets and content. -/
def Everywhere (P : UInt8 → Octets → Octets → Prop) (x : Octets) : Prop :=
  ∀ t l c, Occurs t l c x → P t l c

section
variable {P : UInt8 → Octets → Octets → Prop}

theorem everywhere_nil : Everywhere P [] := by
  intro t l c h
  generalize hnil : ([] : Octets) = x at h
  cases h with
  | here _ _ => simp at hnil
  | behind hx _ => exact absurd (List.append_eq_nil_iff.1 hnil.symm).1 hx.ne_nil
  | inside hx _ _ _ => exact absurd (List.append_eq_nil_iff.1 hnil.symm).1 hx.ne_nil

/-- In octets that start with an element occur that element, what occurs in it, and what occurs behind
it. -/
theorem everywhere_cons {t : UInt8} {l c rest : Octets} (hl : LengthOctets c.length l) :
    Everywhere P (t :: l ++ c ++ rest) ↔
      P t l c ∧ (IsConstructed t → Everywhere P c) ∧ Everywhere P rest := by
  have hx : IsElement t c (t :: l ++ c) := ⟨l, hl, rfl⟩
  constructor
  · intro h
    refine ⟨h t l c (.here hl rest), ?_, ?_⟩
    · intro ht u m d hd
      exact h u m d (.inside hx ht hd rest)
    · intro u m d hd
      exact h u m d (.behind hx hd)
  · rintro ⟨hself, hcontent, hrest⟩ u m d hd
    generalize heq : t :: l ++ c ++ rest = x at hd
    cases hd with
    | here hm rest' =>
      obtain ⟨rfl, rfl, hheader, _⟩ := hx.unique ⟨m, hm, rfl⟩ heq
      obtain rfl : l = m := by simpa using hheader
      exact hself
    | behind hy hd =>
      obtain ⟨_, _, _, rfl⟩ := hx.unique hy heq
      exact hrest u m d hd
    | inside hy ht hd rest' =>
      obtain ⟨rfl, rfl, _, _⟩ := hx.unique hy heq
      exact hcontent ht u m d hd

/-- In a single element occur the element itself and, if its tag says that it is made of elements,
what occurs in its content. -/
theorem everywhere_element {t : UInt8} {l c : Octets} (hl : LengthOctets c.length l) :
    Everywhere P (t :: l ++ c) ↔ P t l c ∧ (IsConstructed t → Everywhere P c) := by
  have hcons : Everywhere P (t :: l ++ c ++ []) ↔
      P t l c ∧ (IsConstructed t → Everywhere P c) ∧ Everywhere P [] := everywhere_cons hl
  rw [List.append_nil] at hcons
  simp only [hcons, everywhere_nil, and_true]

/-- In octets that start with an element occur what occurs in the element and what occurs behind
it. -/
theorem everywhere_append {t : UInt8} {c x rest : Octets} (hx : IsElement t c x) :
    Everywhere P (x ++ rest) ↔ Everywhere P x ∧ Everywhere P rest := by
  obtain ⟨l, hl, rfl⟩ := hx
  rw [everywhere_cons hl, everywhere_element hl, and_assoc]

/-- If a property of elements singles out one of the elements that can stand for a thing, it singles
out what these give for a list of things. -/
theorem everywhere_concat_iff {α : Type} {R : α → Octets → Prop} {g : α → Octets} {as : List α}
    {x : Octets} (hx : Concat R as x)
    (hgiven : ∀ a ∈ as, ∀ y, R a y → ∃ t c, IsElement t c y)
    (hchosen : ∀ a ∈ as, ∀ y, R a y → ∃ t c, IsElement t c (g a))
    (hiff : ∀ a ∈ as, ∀ y, R a y → (Everywhere P y ↔ y = g a)) :
    Everywhere P x ↔ x = as.flatMap g := by
  induction hx with
  | nil => exact iff_of_true everywhere_nil rfl
  | @cons a as y z ha _ ih =>
    obtain ⟨t, c, hy⟩ := hgiven a List.mem_cons_self y ha
    obtain ⟨u, d, hg⟩ := hchosen a List.mem_cons_self y ha
    have hrest := ih (fun b hb => hgiven b (List.mem_cons_of_mem _ hb))
      (fun b hb => hchosen b (List.mem_cons_of_mem _ hb)) fun b hb => hiff b (List.mem_cons_of_mem _ hb)
    rw [everywhere_append hy, hiff a List.mem_cons_self y ha, hrest, List.flatMap_cons,
      hy.append_eq_append_iff hg]

/-- What holds of the tag and the content of every element holds of every field, if no field is made
of elements. -/
theorem everywhere_tagged_iff {Q : UInt8 → Octets → Prop} {fields : List (UInt8 × Octets)}
    {x : Octets} (hx : Concat IsTagged fields x) (hprimitive : ∀ f ∈ fields, ¬IsConstructed f.1) :
    Everywhere (fun t _ c => Q t c) x ↔ ∀ f ∈ fields, Q f.1 f.2 := by
  induction hx with
  | nil => exact iff_of_true everywhere_nil (by simp)
  | @cons f fields y z hf _ ih =>
    have hfirst := hprimitive f List.mem_cons_self
    have hrest := ih fun g hg => hprimitive g (List.mem_cons_of_mem _ hg)
    rw [everywhere_append hf, hrest, List.forall_mem_cons]
    obtain ⟨l, hl, rfl⟩ := hf
    rw [everywhere_element hl]
    simp [hfirst]

end

end SearchFilter.Ber
