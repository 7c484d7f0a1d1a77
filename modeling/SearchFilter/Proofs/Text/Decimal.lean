import Mathlib.Tactic.Common
import SearchFilter.Text.Blank
import SearchFilter.Text.Decimal

namespace SearchFilter

theorem Blank.trim_eq_self {cs : List Char} (h : ∀ c ∈ cs, contains c = false) : trim cs = cs := by
  have hdrop {ds : List Char} (hds : ∀ c ∈ ds, contains c = false) : ds.dropWhile contains = ds := by
    cases ds with
    | nil => rfl
    | cons d ds => exact List.dropWhile_cons_of_neg (by simp [hds d List.mem_cons_self])
  rw [trim, hdrop h, hdrop, List.reverse_reverse]
  intro c hc
  exact h c (List.mem_reverse.1 hc)

namespace Decimal

theorem isDigit_digit : ∀ n < 10, isDigit (digit n) = true := by
  decide

theorem toNat_digit : ∀ n < 10, (digit n).toNat - '0'.toNat = n := by
  decide

theorem value_append_singleton (cs : List Char) (c : Char) :
    value (cs ++ [c]) = value cs * 10 + (c.toNat - '0'.toNat) := by
  simp [value]

theorem ofNat_ne_nil (n : Nat) : ofNat n ≠ [] := by
  rw [ofNat]
  split <;> simp

theorem isDigit_of_mem_ofNat {n : Nat} {c : Char} (hc : c ∈ ofNat n) : isDigit c = true := by
  fun_induction ofNat n with
  | case1 n hn =>
    obtain rfl := List.mem_singleton.1 hc
    exact isDigit_digit n hn
  | case2 n _ ih =>
    rcases List.mem_append.1 hc with hc | hc
    · exact ih hc
    · obtain rfl := List.mem_singleton.1 hc
      exact isDigit_digit _ (Nat.mod_lt _ (by decide))

/-- The digits that are written for a number have its value. -/
theorem value_ofNat (n : Nat) : value (ofNat n) = n := by
  fun_induction ofNat n with
  | case1 n hn => simpa [value] using toNat_digit n hn
  | case2 n _ ih =>
    rw [value_append_singleton, ih, toNat_digit _ (Nat.mod_lt _ (by decide))]
    omega

/-- A text of digits, behind a minus sign or without one, denotes an integer. -/
def Denotes (m : Int) (cs : List Char) : Prop :=
  ∃ digits, digits ≠ [] ∧ (∀ c ∈ digits, isDigit c = true) ∧
    (cs = digits ∧ m = value digits ∨ cs = '-' :: digits ∧ m = -value digits)

/-- What is written for an integer denotes it. -/
theorem denotes_ofInt (n : Int) : Denotes n (ofInt n) := by
  refine ⟨ofNat n.natAbs, ofNat_ne_nil _, fun _ hc => isDigit_of_mem_ofNat hc, ?_⟩
  rw [ofInt, value_ofNat]
  split_ifs with hn
  · exact .inr ⟨rfl, by omega⟩
  · exact .inl ⟨rfl, by omega⟩

/-- Digits, if there is one, are read as their value, however many zeros they start with. -/
theorem nat?_eq_value {cs : List Char} (hne : cs ≠ []) (hdigits : ∀ c ∈ cs, isDigit c = true) :
    nat? cs = some (value cs) := by
  rw [nat?, List.all_eq_true.2 hdigits]
  simp [hne]

/-- A text that denotes an integer is read as that integer. -/
theorem int?_of_denotes {m : Int} {cs : List Char} (h : Denotes m cs) : int? cs = some m := by
  obtain ⟨digits, hne, hdigits, ⟨rfl, rfl⟩ | ⟨rfl, rfl⟩⟩ := h
  · have hdigit {c : Char} {rest : List Char} (h : cs = c :: rest) : isDigit c = true :=
      hdigits c (h ▸ List.mem_cons_self)
    unfold int?
    split
    · exact absurd (hdigit rfl) (by decide)
    · exact absurd (hdigit rfl) (by decide)
    · rw [nat?_eq_value hne hdigits]
      rfl
  · rw [int?, nat?_eq_value hne hdigits]
    rfl

/-- The integers that a signed word can be. -/
def FitsWord (m : Int) : Prop :=
  Int64.minValue.toInt ≤ m ∧ m ≤ Int64.maxValue.toInt

instance (m : Int) : Decidable (FitsWord m) :=
  inferInstanceAs (Decidable (_ ∧ _))

theorem fitsWord_toInt (n : Int64) : FitsWord n.toInt := by
  have hmax : n.toInt ≤ Int64.maxValue.toInt := by
    have hlt := n.toInt_lt
    have hvalue : Int64.maxValue.toInt = 2 ^ 63 - 1 := by decide
    omega
  exact ⟨n.le_toInt, hmax⟩

/-- An integer that fits is not changed by being put into a word. -/
theorem toInt_ofInt_of_fitsWord {m : Int} (h : FitsWord m) : (Int64.ofInt m).toInt = m := by
  have hmax : Int64.maxValue.toInt = 2 ^ 63 - 1 := by decide
  have hlt := h.2
  exact Int64.toInt_ofInt_of_le h.1 (by omega)

theorem word?_of_fitsWord {m : Int} (h : FitsWord m) : word? m = some (Int64.ofInt m) :=
  if_pos h

/-- An integer that does not fit is refused instead of being cut off. -/
theorem word?_of_not_fitsWord {m : Int} (h : ¬FitsWord m) : word? m = none :=
  if_neg h

theorem word?_toInt (n : Int64) : word? n.toInt = some n := by
  rw [word?_of_fitsWord (fitsWord_toInt n), Int64.ofInt_toInt]

/-- A text that denotes an integer is read as a word just where the integer fits one, and then as
that integer. -/
theorem int64?_of_denotes {m : Int} {cs : List Char} (h : Denotes m cs) : int64? cs = word? m := by
  rw [int64?, int?_of_denotes h, Option.bind_some]

theorem not_blank_of_isDigit {c : Char} (hc : isDigit c = true) : Blank.contains c = false := by
  have hcodes : ∀ k ≤ 57, 48 ≤ k → Blank.ranges.contains k = false := by decide
  rw [isDigit, Bool.and_eq_true, decide_eq_true_eq, decide_eq_true_eq] at hc
  exact hcodes _ (UInt32.le_iff_toNat_le.1 hc.2) (UInt32.le_iff_toNat_le.1 hc.1)

/-- A text that denotes an integer has no white space at its ends. -/
theorem trim_of_denotes {m : Int} {cs : List Char} (h : Denotes m cs) : Blank.trim cs = cs := by
  refine Blank.trim_eq_self fun c hc => ?_
  obtain ⟨digits, _, hdigits, ⟨rfl, _⟩ | ⟨rfl, _⟩⟩ := h
  · exact not_blank_of_isDigit (hdigits c hc)
  · rcases List.mem_cons.1 hc with rfl | hc
    · decide
    · exact not_blank_of_isDigit (hdigits c hc)

end Decimal

end SearchFilter
