import Mathlib.Algebra.Group.Nat.Defs
import Mathlib.Tactic.Common
import SearchFilter.Ber.Length

namespace SearchFilter.Ber

/-- The octets that stand for a length: one octet below 128, or an octet that counts the one to four
digits behind it. These may start with zeros, so a length has many forms. -/
inductive LengthOctets : Nat → Octets → Prop where
  | short {b : UInt8} (hb : b.toNat < 128) : LengthOctets b.toNat [b]
  | long {count : UInt8} {digits : Octets} (hcount : count.toNat = 128 + digits.length)
    (hsome : 0 < digits.length) (hfew : digits.length ≤ 4) :
    LengthOctets (ofBase256 digits) (count :: digits)

/-- The octets of an element with this tag and content, its length in any accepted form. -/
def IsElement (tag : UInt8) (content element : Octets) : Prop :=
  ∃ octets, LengthOctets content.length octets ∧ element = tag :: octets ++ content

/-- The digit behind the others counts ones. -/
theorem ofBase256_append_singleton (digits : Octets) (b : UInt8) :
    ofBase256 (digits ++ [b]) = ofBase256 digits * 256 + b.toNat := by
  simp [ofBase256]

/-- The digits that are written are read as the number they were taken from. -/
theorem ofBase256_toBase256 (n : Nat) : ofBase256 (toBase256 n) = n := by
  induction n using toBase256.induct with
  | case1 => simp [toBase256, ofBase256]
  | case2 n hn ih =>
    have hdigit : (UInt8.ofNat (n % 256)).toNat = n % 256 := by
      rw [UInt8.toNat_ofNat']
      omega
    rw [toBase256, if_neg hn, ofBase256_append_singleton, ih, hdigit]
    omega

/-- A number below `256 ^ k` takes no more than `k` digits. -/
theorem length_toBase256_le {n k : Nat} (hn : n < 256 ^ k) : (toBase256 n).length ≤ k := by
  induction n using toBase256.induct generalizing k with
  | case1 => simp [toBase256]
  | case2 n hzero ih =>
    cases k with
    | zero => omega
    | succ k =>
      have hquotient : n / 256 < 256 ^ k := by
        rw [Nat.div_lt_iff_lt_mul (by decide), ← Nat.pow_succ]
        exact hn
      rw [toBase256, if_neg hzero]
      simpa using ih hquotient

/-- The length that is written is one of the accepted forms, as long as four digits hold it. -/
theorem lengthOctets_encodeLength {n : Nat} (hn : n < 2 ^ 32) : LengthOctets n (encodeLength n) := by
  unfold encodeLength
  split_ifs with hshort
  · have hb : (UInt8.ofNat n).toNat = n := by
      rw [UInt8.toNat_ofNat']
      omega
    have hform := LengthOctets.short (b := UInt8.ofNat n) (by omega)
    rwa [hb] at hform
  · have hfew := length_toBase256_le (k := 4) hn
    have hsome : 0 < (toBase256 n).length := by
      rw [toBase256, if_neg (by omega)]
      simp
    have hcount : (UInt8.ofNat (128 + (toBase256 n).length)).toNat = 128 + (toBase256 n).length := by
      rw [UInt8.toNat_ofNat']
      omega
    have hform := LengthOctets.long hcount hsome hfew
    rwa [ofBase256_toBase256] at hform

/-- What is written for a content that four digits can count is an element with that content. -/
theorem isElement_element {tag : UInt8} {content : Octets} (hcontent : content.length < 2 ^ 32) :
    IsElement tag content (element tag content) :=
  ⟨encodeLength content.length, lengthOctets_encodeLength hcontent, rfl⟩

/-- Length octets are read in one way only: two forms that start the same octets are one form of one
length. -/
theorem LengthOctets.unique {n m : Nat} {x y p q : Octets} (hx : LengthOctets n x)
    (hy : LengthOctets m y) (heq : x ++ p = y ++ q) : n = m ∧ x = y := by
  cases hx with
  | short hb =>
    cases hy with
    | short _ =>
      obtain ⟨rfl, _⟩ := List.cons.inj heq
      exact ⟨rfl, rfl⟩
    | long hcount _ _ =>
      obtain ⟨rfl, _⟩ := List.cons.inj heq
      omega
  | @long _ digits hcount _ _ =>
    cases hy with
    | short hb =>
      obtain ⟨rfl, _⟩ := List.cons.inj heq
      omega
    | @long _ digits' hcount' _ _ =>
      obtain ⟨rfl, htail⟩ := List.cons.inj heq
      obtain ⟨rfl, _⟩ := List.append_inj htail (by omega)
      exact ⟨rfl, rfl⟩

/-- An element is read in one way only, whatever follows it. -/
theorem IsElement.unique {t t' : UInt8} {c c' x y p q : Octets} (hx : IsElement t c x)
    (hy : IsElement t' c' y) (heq : x ++ p = y ++ q) : t = t' ∧ c = c' ∧ x = y ∧ p = q := by
  obtain ⟨l, hl, rfl⟩ := hx
  obtain ⟨l', hl', rfl⟩ := hy
  simp only [List.cons_append, List.append_assoc, List.cons.injEq] at heq
  obtain ⟨rfl, heq⟩ := heq
  obtain ⟨hlength, rfl⟩ := hl.unique hl' heq
  obtain ⟨rfl, rfl⟩ := List.append_inj (List.append_cancel_left heq) hlength
  exact ⟨rfl, rfl, rfl, rfl⟩

theorem LengthOctets.ne_nil {n : Nat} {x : Octets} (hx : LengthOctets n x) : x ≠ [] := by
  cases hx <;> simp

/-- An element is longer than its content by its header, which takes at least two octets. -/
theorem IsElement.length_le {t : UInt8} {c x : Octets} (hx : IsElement t c x) :
    c.length + 2 ≤ x.length := by
  obtain ⟨l, hl, rfl⟩ := hx
  have hpos := List.length_pos_iff.2 hl.ne_nil
  simp only [List.length_cons, List.length_append]
  omega

/-- An element is longer than its content by its tag alone. -/
theorem length_lt_length_element (tag : UInt8) (content : Octets) :
    content.length < (element tag content).length := by
  simp only [element, List.length_cons, List.length_append]
  omega

end SearchFilter.Ber
