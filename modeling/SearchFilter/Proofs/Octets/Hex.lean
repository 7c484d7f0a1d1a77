import Mathlib.Tactic.Common
import SearchFilter.Octets
import SearchFilter.Proofs.Except
import SearchFilter.Proofs.Octets.Utf8
import SearchFilter.Text.Blank

namespace SearchFilter.Hex

/-- What holds of all characters up to a number can be gone through. -/
theorem of_forall_lt {p : Char → Prop} {n : Nat} (h : ∀ k < n, p (Char.ofNat k)) :
    ∀ c : Char, c.toNat < n → p c := by
  intro c hc
  have hp := h c.toNat hc
  rwa [Char.ofNat_toNat] at hp

theorem toNat_le_toNat_toLower (c : Char) : c.toNat ≤ c.toLower.toNat := by
  unfold Char.toLower
  split
  · rename_i hupper
    have hle := UInt32.le_iff_toNat_le.1 hupper.2
    change c.val.toNat ≤ (c.val + 32).toNat
    change c.val.toNat ≤ 90 at hle
    rw [UInt32.toNat_add]
    change _ ≤ (c.val.toNat + 32) % 2 ^ 32
    omega
  · exact Nat.le_refl _

theorem toNat_digit_lt : ∀ n < 16, (digit n).toNat < 103 := by
  decide

/-- No digit lies behind the lower-case `f`, so that the digits can be gone through. -/
theorem value?_eq_some_iff {c : Char} {n : Nat} :
    value? c = some n ↔ n < 16 ∧ c.toLower = digit n := by
  have hdigits : ∀ c : Char, c.toNat < 103 → ∀ n < 16, (value? c = some n ↔ c.toLower = digit n) :=
    of_forall_lt (by decide +kernel)
  have hvalues : ∀ c : Char, c.toNat < 103 → ∀ n ∈ value? c, n < 16 :=
    of_forall_lt (by decide +kernel)
  by_cases hc : c.toNat < 103
  · constructor
    · intro h
      have hn := hvalues c hc n h
      exact ⟨hn, (hdigits c hc n hn).1 h⟩
    · rintro ⟨hn, h⟩
      exact (hdigits c hc n hn).2 h
  · have hle := toNat_le_toNat_toLower c
    have hbehind {d : Char} (hd : d.toNat < 103) : ¬c ≤ d := by
      intro h
      have hcd : c.toNat ≤ d.toNat := UInt32.le_iff_toNat_le.1 h
      omega
    constructor
    · intro h
      unfold value? at h
      rw [if_neg (fun h => hbehind (by decide) h.2), if_neg (fun h => hbehind (by decide) h.2),
        if_neg (fun h => hbehind (by decide) h.2)] at h
      cases h
    · rintro ⟨hn, h⟩
      have hsmall := toNat_digit_lt n hn
      rw [← h] at hsmall
      omega

/-- Two digits stand for the octet that has them as its digits, whatever their case. -/
theorem octet?_eq_some_iff {high low : Char} {b : UInt8} :
    octet? high low = some b ↔ [high.toLower, low.toLower] = pair b := by
  have hb := b.toNat_lt
  have hparts : octet? high low = some b ↔
      ∃ h l, value? high = some h ∧ value? low = some l ∧ UInt8.ofNat (16 * h + l) = b := by
    unfold octet?
    cases value? high <;> cases value? low <;> simp
  simp only [hparts, value?_eq_some_iff, pair, List.cons.injEq, and_true]
  constructor
  · rintro ⟨h, l, ⟨hh, hhigh⟩, ⟨hl, hlow⟩, rfl⟩
    have hsum : (UInt8.ofNat (16 * h + l)).toNat = 16 * h + l := by
      rw [UInt8.toNat_ofNat']
      omega
    have hdiv : (16 * h + l) / 16 = h := by omega
    have hmod : (16 * h + l) % 16 = l := by omega
    rw [hsum, hdiv, hmod]
    exact ⟨hhigh, hlow⟩
  · rintro ⟨hhigh, hlow⟩
    refine ⟨b.toNat / 16, b.toNat % 16, ⟨by omega, hhigh⟩, ⟨by omega, hlow⟩, ?_⟩
    rw [Nat.div_add_mod, UInt8.ofNat_toNat]

theorem toLower_digit : ∀ n < 16, (digit n).toLower = digit n := by
  decide

theorem exists_digit_of_mem_pair {b : UInt8} {c : Char} (hc : c ∈ pair b) : ∃ n < 16, c = digit n := by
  have hb := b.toNat_lt
  rw [pair, List.mem_cons, List.mem_singleton] at hc
  obtain rfl | rfl := hc
  · exact ⟨_, by omega, rfl⟩
  · exact ⟨_, by omega, rfl⟩

theorem map_toLower_pair (b : UInt8) : (pair b).map Char.toLower = pair b := by
  have hb := b.toNat_lt
  rw [pair, List.map_cons, List.map_cons, toLower_digit _ (by omega), toLower_digit _ (by omega)]
  rfl

/-- A character that is no digit is neither of the two digits of an octet. -/
theorem notMem_of_pair {high low c : Char} {b : UInt8}
    (hb : [high.toLower, low.toLower] = pair b) (hc : ∀ n < 16, c.toLower ≠ digit n) :
    c ≠ high ∧ c ≠ low := by
  have hlt := b.toNat_lt
  obtain ⟨hhigh, hlow⟩ : high.toLower = digit (b.toNat / 16) ∧ low.toLower = digit (b.toNat % 16) := by
    simpa [pair] using hb
  constructor
  · rintro rfl
    exact hc _ (by omega) hhigh
  · rintro rfl
    exact hc _ (by omega) hlow

/-- A text is another spelling of digits: their case may differ, and white space may stand before,
between and behind them. -/
inductive Respelled : List Char → List Char → Prop where
  | nil : Respelled [] []
  | blank {c : Char} {digits text : List Char} (hc : Blank.contains c = true)
    (htext : Respelled digits text) : Respelled digits (c :: text)
  | digit {c d : Char} {digits text : List Char} (hd : d.toLower = c.toLower)
    (htext : Respelled digits text) : Respelled (c :: digits) (d :: text)

theorem toNat_lt_of_value? {c : Char} {n : Nat} (hc : value? c = some n) : c.toNat < 103 := by
  obtain ⟨hn, hlower⟩ := value?_eq_some_iff.1 hc
  have hle := toNat_le_toNat_toLower c
  rw [hlower] at hle
  exact Nat.lt_of_le_of_lt hle (toNat_digit_lt n hn)

theorem not_blank_of_value? {c : Char} {n : Nat} (hc : value? c = some n) :
    Blank.contains c = false := by
  have hdigits : ∀ c : Char, c.toNat < 103 → (value? c).isSome = true → Blank.contains c = false :=
    of_forall_lt (by decide +kernel)
  exact hdigits c (toNat_lt_of_value? hc) (hc ▸ rfl)

/-- A digit is a single octet, and that octet is read as the digit. -/
theorem exists_octet_of_value? {c : Char} {n : Nat} (hc : value? c = some n) :
    ∃ b, String.utf8EncodeChar c = [b] ∧ octetValue? b = some n := by
  have hlt := toNat_lt_of_value? hc
  have hb : (UInt8.ofNat c.toNat).toNat = c.toNat := by
    rw [UInt8.toNat_ofNat']
    omega
  refine ⟨UInt8.ofNat c.toNat, ?_, ?_⟩
  · have hencode := Utf8.encodeChar_ofNat (b := UInt8.ofNat c.toNat) (by omega)
    rwa [hb, Char.ofNat_toNat] at hencode
  · rw [octetValue?, hb, Char.ofNat_toNat, hc]

theorem map_toLower_encode (bs : Octets) : (encode bs).map Char.toLower = encode bs := by
  induction bs with
  | nil => rfl
  | cons b bs ih => rw [encode, List.flatMap_cons, List.map_append, map_toLower_pair, ← encode, ih]

/-- Every character that is written for octets is read as a digit. -/
theorem exists_value?_of_mem_encode {bs : Octets} {c : Char} (hc : c ∈ encode bs) :
    ∃ n, value? c = some n := by
  rw [encode, List.mem_flatMap] at hc
  obtain ⟨b, _, hpair⟩ := hc
  obtain ⟨n, hn, rfl⟩ := exists_digit_of_mem_pair hpair
  exact ⟨n, value?_eq_some_iff.2 ⟨hn, toLower_digit n hn⟩⟩

/-- Octets are written with two digits each. -/
theorem length_encode (bs : Octets) : (encode bs).length = 2 * bs.length := by
  induction bs with
  | nil => rfl
  | cons b bs ih =>
    rw [encode, List.flatMap_cons, List.length_append, List.length_cons, Nat.mul_succ, Nat.add_comm]
    exact congrArg (· + 2) ih

/-- Without its white space another spelling of digits differs in case alone. -/
theorem respelled_iff {digits text : List Char} (hdigits : ∀ c ∈ digits, ∃ n, value? c = some n) :
    Respelled digits text ↔
      (text.filter (!Blank.contains ·)).map Char.toLower = digits.map Char.toLower := by
  constructor
  · intro h
    induction h with
    | nil => rfl
    | blank hc _ ih =>
      rw [List.filter_cons_of_neg (by simp [hc])]
      exact ih hdigits
    | @digit c d digits text hd _ ih =>
      rw [List.forall_mem_cons] at hdigits
      obtain ⟨n, hn⟩ := hdigits.1
      have hvalue : value? d = some n := by
        rw [value?_eq_some_iff, hd, ← value?_eq_some_iff]
        exact hn
      rw [List.filter_cons_of_pos (by simp [not_blank_of_value? hvalue]), List.map_cons, List.map_cons,
        hd, ih hdigits.2]
  · intro h
    induction text generalizing digits with
    | nil =>
      rw [List.map_eq_nil_iff.1 h.symm]
      exact .nil
    | cons d text ih =>
      by_cases hd : Blank.contains d = true
      · rw [List.filter_cons_of_neg (by simp [hd])] at h
        exact .blank hd (ih hdigits h)
      · rw [List.filter_cons_of_pos (by simp [hd]), List.map_cons] at h
        obtain ⟨c, rest, rfl, hc, hrest⟩ := List.map_eq_cons_iff.1 h.symm
        rw [List.forall_mem_cons] at hdigits
        exact .digit hc.symm (ih hdigits.2 hrest.symm)

/-- Digits are read as the octets they were written for, in whatever case they are. -/
theorem decodeFrom_of_map_toLower {bs : Octets} {text : List Char}
    (h : text.map Char.toLower = encode bs) (i : Nat) :
    decodeFrom i (Utf8.encodeChars text) = .ok bs := by
  induction bs generalizing text i with
  | nil =>
    rw [List.map_eq_nil_iff.1 h]
    rfl
  | cons b bs ih =>
    have hb := b.toNat_lt
    obtain ⟨high, tail, rfl, hhigh, htail⟩ := List.map_eq_cons_iff.1 h
    obtain ⟨low, rest, rfl, hlow, hrest⟩ := List.map_eq_cons_iff.1 htail
    obtain ⟨x, hx, hxvalue⟩ := exists_octet_of_value? (value?_eq_some_iff.2 ⟨by omega, hhigh⟩)
    obtain ⟨y, hy, hyvalue⟩ := exists_octet_of_value? (value?_eq_some_iff.2 ⟨by omega, hlow⟩)
    have htext : Utf8.encodeChars (high :: low :: rest) = x :: y :: Utf8.encodeChars rest := by
      simp [Utf8.encodeChars, hx, hy]
    rw [htext, decodeFrom, hxvalue, hyvalue]
    dsimp only
    rw [ih hrest, Nat.div_add_mod, UInt8.ofNat_toNat]
    rfl

/-- What is read took two digits for each octet. -/
theorem length_of_decodeFrom {i : Nat} {text bs : Octets} (h : decodeFrom i text = .ok bs) :
    text.length = 2 * bs.length := by
  fun_induction decodeFrom i text generalizing bs with
  | case1 =>
    cases h
    rfl
  | case2 => cases h
  | case3 => cases h
  | case4 => cases h
  | case5 i high low rest h' l' hhigh hlow ih =>
    obtain ⟨tail, htail, hbs⟩ := Except.bind_eq_ok_iff.1 h
    cases hbs
    rw [List.length_cons, List.length_cons, ih htail, List.length_cons]
    omega

/-- Another spelling of what is written for octets is read as these octets. -/
theorem decode_of_respelled {bs : Octets} {text : List Char} (h : Respelled (encode bs) text) :
    decode (Utf8.encodeChars (text.filter (!Blank.contains ·))) = .ok bs := by
  rw [respelled_iff fun c => exists_value?_of_mem_encode, map_toLower_encode] at h
  have hread := decodeFrom_of_map_toLower h 0
  have hlength := length_of_decodeFrom hread
  rw [decode, if_neg (by omega), hread]

end SearchFilter.Hex
