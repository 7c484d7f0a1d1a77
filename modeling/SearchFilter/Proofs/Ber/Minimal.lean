import Mathlib.Data.List.Induction
import Mathlib.Tactic.Common
import SearchFilter.Proofs.Ber.Length

namespace SearchFilter.Ber

/-- A form of a length that none of its forms is shorter than. -/
def IsMinimal (n : Nat) (x : Octets) : Prop :=
  LengthOctets n x ∧ ∀ y, LengthOctets n y → x.length ≤ y.length

/-- Each digit makes room for 256 times as many numbers. -/
theorem ofBase256_lt (digits : Octets) : ofBase256 digits < 256 ^ digits.length := by
  induction digits using List.reverseRecOn with
  | nil => simp [ofBase256]
  | append_singleton digits b ih =>
    have hb := b.toNat_lt
    rw [ofBase256_append_singleton, List.length_append, List.length_singleton, Nat.pow_succ]
    omega

/-- Digits are determined by their number and by how many they are. -/
theorem eq_of_ofBase256_eq {x y : Octets} (hlength : x.length = y.length)
    (heq : ofBase256 x = ofBase256 y) : x = y := by
  induction x using List.reverseRecOn generalizing y with
  | nil => exact (List.length_eq_zero_iff.1 hlength.symm).symm
  | append_singleton x a ih =>
    rcases List.eq_nil_or_concat y with rfl | ⟨y, b, rfl⟩
    · simp at hlength
    · rw [List.concat_eq_append] at hlength heq ⊢
      rw [ofBase256_append_singleton, ofBase256_append_singleton] at heq
      have ha := a.toNat_lt
      have hb := b.toNat_lt
      have hdigits : x = y := by
        apply ih
        · simpa using hlength
        · omega
      have hlast : a = b := by
        apply UInt8.toNat_inj.1
        omega
      rw [hdigits, hlast]

theorem length_toBase256_le_of_le {m n : Nat} (hle : m ≤ n) :
    (toBase256 m).length ≤ (toBase256 n).length := by
  have hlt := ofBase256_lt (toBase256 n)
  rw [ofBase256_toBase256] at hlt
  exact length_toBase256_le (Nat.lt_of_le_of_lt hle hlt)

theorem length_encodeLength_pos (n : Nat) : 0 < (encodeLength n).length := by
  unfold encodeLength
  split <;> simp

/-- A longer content does not have a shorter length. -/
theorem length_encodeLength_le_of_le {m n : Nat} (hle : m ≤ n) :
    (encodeLength m).length ≤ (encodeLength n).length := by
  by_cases hshort : m < 128
  · rw [encodeLength, if_pos hshort]
    exact length_encodeLength_pos n
  · have hdigits := length_toBase256_le_of_le hle
    rw [encodeLength, if_neg hshort, encodeLength, if_neg (by omega)]
    simpa using hdigits

namespace LengthOctets

variable {n : Nat} {x : Octets}

/-- Four digits hold every length that is accepted. -/
theorem lt (hx : LengthOctets n x) : n < 2 ^ 32 := by
  cases hx with
  | short hb => omega
  | @long _ digits _ _ hfew =>
    have hlt := ofBase256_lt digits
    have hpow : 256 ^ digits.length ≤ 256 ^ 4 := Nat.pow_le_pow_right (by decide) hfew
    omega

/-- No form of a length is shorter than the one that is written. -/
theorem length_encodeLength_le (hx : LengthOctets n x) : (encodeLength n).length ≤ x.length := by
  unfold encodeLength
  cases hx with
  | short hb => simp [hb]
  | @long _ digits _ hsome _ =>
    have hdigits := length_toBase256_le (ofBase256_lt digits)
    split
    · simp
    · simpa using hdigits

/-- No other form is as short as the one that is written. -/
theorem eq_encodeLength (hx : LengthOctets n x) (hle : x.length ≤ (encodeLength n).length) :
    x = encodeLength n := by
  unfold encodeLength at hle ⊢
  cases hx with
  | @short b hb => simp [hb]
  | @long count digits hcount hsome _ =>
    split_ifs at hle ⊢ with hshort
    · simp only [List.length_cons, List.length_nil] at hle
      omega
    · simp only [List.length_cons, Nat.add_le_add_iff_right] at hle
      have hdigits := length_toBase256_le (ofBase256_lt digits)
      have hlength : digits.length = (toBase256 (ofBase256 digits)).length := by omega
      have heq : digits = toBase256 (ofBase256 digits) :=
        eq_of_ofBase256_eq hlength (ofBase256_toBase256 _).symm
      rw [← heq, ← hcount, UInt8.ofNat_toNat]

end LengthOctets

/-- The form that is written is the only shortest one. -/
theorem isMinimal_iff {n : Nat} {x : Octets} (hx : LengthOctets n x) :
    IsMinimal n x ↔ x = encodeLength n := by
  constructor
  · intro hminimal
    exact hx.eq_encodeLength (hminimal.2 _ (lengthOctets_encodeLength hx.lt))
  · rintro rfl
    exact ⟨hx, fun y hy => hy.length_encodeLength_le⟩

/-- The content of an element is one that four digits can count. -/
theorem IsElement.length_content_lt {t : UInt8} {c x : Octets} (hx : IsElement t c x) :
    c.length < 2 ^ 32 := by
  obtain ⟨l, hl, _⟩ := hx
  exact hl.lt

/-- A content that is no longer than that of an element is the content of an element, too. -/
theorem IsElement.isElement_element {t : UInt8} {c d x : Octets} (hx : IsElement t c x)
    (hle : d.length ≤ c.length) : IsElement t d (element t d) :=
  Ber.isElement_element (Nat.lt_of_le_of_lt hle hx.length_content_lt)

/-- An element is written anew in no more octets, if its content is. -/
theorem IsElement.length_element_le {t : UInt8} {c d x : Octets} (hx : IsElement t c x)
    (hle : d.length ≤ c.length) : (element t d).length ≤ x.length := by
  obtain ⟨l, hl, rfl⟩ := hx
  have hform := hl.length_encodeLength_le
  have hshrink := length_encodeLength_le_of_le hle
  simp only [element, List.length_cons, List.length_append]
  omega

end SearchFilter.Ber
