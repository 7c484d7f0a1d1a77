import Mathlib.Tactic.Common
import SearchFilter.Proofs.Ber.Length
import SearchFilter.Proofs.Concat

namespace SearchFilter.Ber

/-- The octets of an element, given its tag and its content together. -/
def IsTagged (field : UInt8 × Octets) (x : Octets) : Prop :=
  IsElement field.1 field.2 x

theorem IsElement.ne_nil {t : UInt8} {c x : Octets} (hx : IsElement t c x) : x ≠ [] := by
  have hlength := hx.length_le
  rintro rfl
  simp at hlength

/-- Octets that start with elements agree where the elements and the octets behind them do. -/
theorem IsElement.append_eq_append_iff {t u : UInt8} {c d x y p q : Octets} (hx : IsElement t c x)
    (hy : IsElement u d y) : x ++ p = y ++ q ↔ x = y ∧ p = q := by
  constructor
  · intro heq
    obtain ⟨_, _, hxy, hpq⟩ := hx.unique hy heq
    exact ⟨hxy, hpq⟩
  · rintro ⟨rfl, rfl⟩
    rfl

/-- Octets are cut into tagged fields in one way only, so two lists of fields that are written alike
are one list. -/
theorem unique_tagged {as bs : List (UInt8 × Octets)} {x : Octets} (hx : Concat IsTagged as x)
    (hy : Concat IsTagged bs x) : as = bs := by
  refine hx.unique hy (fun _ _ h => IsElement.ne_nil h) ?_
  intro a _ b y z p q ha hb heq
  obtain ⟨htag, hcontent, hyz, _⟩ := IsElement.unique ha hb heq
  exact ⟨Prod.ext htag hcontent, hyz⟩

theorem length_le_length_flatMap {α : Type} {g : α → Octets} {as : List α} {a : α} (hmem : a ∈ as) :
    (g a).length ≤ (as.flatMap g).length := by
  rw [List.flatMap_def]
  exact (List.sublist_flatten_of_mem (List.mem_map_of_mem hmem)).length_le

/-- Fields that are written one behind the other are elements, if four digits hold their size. -/
theorem concat_tagged {fields : List (UInt8 × Octets)}
    (hsize : (fields.flatMap fun p => element p.1 p.2).length < 2 ^ 32) :
    Concat IsTagged fields (fields.flatMap fun p => element p.1 p.2) := by
  have hfields : Concat IsTagged (fields.map id) (fields.flatMap fun p => element p.1 p.2) := by
    refine Concat.map_flatMap fun p hp => isElement_element ?_
    change p.2.length < 2 ^ 32
    have hfield := length_le_length_flatMap (g := fun p : UInt8 × Octets => element p.1 p.2) hp
    have hcontent := length_lt_length_element p.1 p.2
    omega
  rwa [List.map_id] at hfields

end SearchFilter.Ber
