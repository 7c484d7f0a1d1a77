import Mathlib
import SearchFilter.Proofs.Text.Value

namespace SearchFilter

namespace Hex

/-- A hexadecimal digit in lower case. -/
def IsLowerDigit (c : Char) : Prop :=
  '0' ≤ c ∧ c ≤ '9' ∨ 'a' ≤ c ∧ c ≤ 'f'

instance decidableIsLowerDigit (c : Char) : Decidable (IsLowerDigit c) :=
  inferInstanceAs (Decidable ('0' ≤ c ∧ c ≤ '9' ∨ 'a' ≤ c ∧ c ≤ 'f'))

theorem isLowerDigit_of_mem_pair {b : UInt8} {c : Char} (hc : c ∈ pair b) : IsLowerDigit c := by
  have hdigit : ∀ n < 16, IsLowerDigit (digit n) := by decide
  obtain ⟨n, hn, rfl⟩ := exists_digit_of_mem_pair hc
  exact hdigit n hn

/-- A digit is neither a control character nor outside ASCII. -/
theorem IsLowerDigit.toNat_bounds {c : Char} (hc : IsLowerDigit c) : 0x30 ≤ c.toNat ∧ c.toNat < 0x80 := by
  have hle {a b : Char} (h : a ≤ b) : a.toNat ≤ b.toNat := h
  rcases hc with ⟨hlo, hhi⟩ | ⟨hlo, hhi⟩
  · exact ⟨hle hlo, Nat.lt_of_le_of_lt (hle hhi) (by decide)⟩
  · exact ⟨Nat.le_trans (by decide) (hle hlo), Nat.lt_of_le_of_lt (hle hhi) (by decide)⟩

end Hex

namespace Escaped.Written

variable {before after text : List Char} {c : Char} {bs : Octets}

/-- In front of a character that is no digit a written text can be cut, and so can the octets. -/
theorem cut (h : Written (before ++ c :: after) bs) (hc : ¬Hex.IsLowerDigit c) :
    ∃ p q, bs = p ++ q ∧ Written before p ∧ Written (c :: after) q := by
  generalize htext : before ++ c :: after = text at h
  induction h generalizing before with
  | nil => simp at htext
  | @octet b text bs h ih =>
    -- The cut is not behind the backslash or between the digits, since a digit would follow it.
    match before, htext with
    | [], htext =>
      have hwhole := Written.octet b h
      rw [← htext] at hwhole
      exact ⟨[], b :: bs, rfl, .nil, hwhole⟩
    | [_], htext =>
      obtain ⟨-, rfl, -⟩ := by simpa [Escaped.octet, Hex.pair] using htext
      exact absurd (Hex.isLowerDigit_of_mem_pair (b := b) (by simp [Hex.pair])) hc
    | [_, _], htext =>
      obtain ⟨-, -, rfl, -⟩ := by simpa [Escaped.octet, Hex.pair] using htext
      exact absurd (Hex.isLowerDigit_of_mem_pair (b := b) (by simp [Hex.pair])) hc
    | x :: high :: low :: before, htext =>
      obtain ⟨rfl, rfl, rfl, rfl⟩ := by simpa [Escaped.octet, Hex.pair] using htext
      obtain ⟨p, q, rfl, hp, hq⟩ := ih rfl
      exact ⟨b :: p, q, rfl, .octet b hp, hq⟩
  | @plain b text bs hb hplain h ih =>
    cases before with
    | nil =>
      obtain ⟨rfl, rfl⟩ := List.cons.inj htext
      exact ⟨[], b :: bs, rfl, .nil, .plain hb hplain h⟩
    | cons x before =>
      obtain ⟨rfl, rfl⟩ := List.cons.inj htext
      obtain ⟨p, q, rfl, hp, hq⟩ := ih rfl
      exact ⟨b :: p, q, rfl, .plain hb hplain hp, hq⟩
  | @wide d text bs hd h ih =>
    cases before with
    | nil =>
      obtain ⟨rfl, rfl⟩ := List.cons.inj htext
      exact ⟨[], _, rfl, .nil, .wide hd h⟩
    | cons x before =>
      obtain ⟨rfl, rfl⟩ := List.cons.inj htext
      obtain ⟨p, q, rfl, hp, hq⟩ := ih rfl
      exact ⟨_, q, (List.append_assoc _ p q).symm, .wide hd hp, hq⟩

/-- A backslash starts an octet in digits. -/
theorem of_backslash (h : Written ('\\' :: after) bs) :
    ∃ b rest q, after = Hex.pair b ++ rest ∧ bs = b :: q ∧ Written rest q := by
  generalize htext : '\\' :: after = text at h
  cases h with
  | nil => cases htext
  | octet b h =>
    obtain ⟨-, rfl⟩ := List.cons.inj htext
    exact ⟨b, _, _, rfl, rfl, h⟩
  | plain hb hplain h =>
    have hchar := ofNat_notMem hb hplain
    rw [← (List.cons.inj htext).1] at hchar
    exact absurd (by decide) hchar
  | wide hd h =>
    have hchar := wide_notMem hd
    rw [← (List.cons.inj htext).1] at hchar
    exact absurd (by decide) hchar

/-- A character outside ASCII is one of four octets, which it stands for. -/
theorem of_wide (h : Written (c :: after) bs) (hc : 0x80 ≤ c.toNat) :
    0x10000 ≤ c.toNat ∧ ∃ q, bs = String.utf8EncodeChar c ++ q ∧ Written after q := by
  generalize htext : c :: after = text at h
  cases h with
  | nil => cases htext
  | octet b h =>
    obtain ⟨rfl, -⟩ := List.cons.inj htext
    exact absurd hc (by decide)
  | plain hb hplain h =>
    obtain ⟨rfl, -⟩ := List.cons.inj htext
    rw [Utf8.toNat_ofNat (.inl (by omega))] at hc
    omega
  | wide hd h =>
    obtain ⟨rfl, rfl⟩ := List.cons.inj htext
    exact ⟨hd, _, rfl, h⟩

/-- No control character is written. -/
theorem le_toNat (h : Written text bs) : ∀ c ∈ text, 0x20 ≤ c.toNat := by
  induction h with
  | nil => simp
  | octet b _ ih =>
    intro c hc
    rcases List.mem_append.1 hc with hpiece | hrest
    · rcases List.mem_cons.1 hpiece with rfl | hdigit
      · decide
      · have hascii := (Hex.isLowerDigit_of_mem_pair hdigit).toNat_bounds
        omega
    · exact ih c hrest
  | @plain b _ _ hb hplain _ ih =>
    have hprintable : 0x20 ≤ b.toNat := by
      by_contra hcontrol
      have hspecial : b < 0x20 := UInt8.lt_iff_toNat_lt.2 (Nat.lt_of_not_le hcontrol)
      simp [isSpecial, hspecial] at hplain
    rw [List.forall_mem_cons, Utf8.toNat_ofNat (.inl (by omega))]
    exact ⟨hprintable, ih⟩
  | wide hd _ ih => exact List.forall_mem_cons.2 ⟨by omega, ih⟩

end Escaped.Written

/-- Every value comes back from what is written for it, and nothing written has a meaning in a filter
text: there is no parenthesis, no wildcard and no control character, a backslash always stands in front
of two digits, and what lies outside ASCII are characters of four octets which the value holds in that
place. -/
theorem unescape_escape_and_inert (value : Octets) :
    unescape (escape value) = .ok value ∧
      (∀ c ∈ (escape value).toList, c ∉ ['(', ')', '*'] ∧ 0x20 ≤ c.toNat) ∧
      (∀ before after, (escape value).toList = before ++ '\\' :: after →
        ∃ high low rest, after = high :: low :: rest ∧ Hex.IsLowerDigit high ∧ Hex.IsLowerDigit low) ∧
      ∀ before c after, (escape value).toList = before ++ c :: after → 0x80 ≤ c.toNat →
        0x10000 ≤ c.toNat ∧ (String.utf8EncodeChar c).length = 4 ∧
          ∃ p q, value = p ++ String.utf8EncodeChar c ++ q ∧
            unescape (String.ofList before) = .ok p ∧ unescape (String.ofList after) = .ok q := by
  have hwritten : Escaped.Written (escape value).toList value := by
    rw [escape, String.toList_ofList]
    exact Escaped.written_write value
  have hread {text : List Char} {bs : Octets} (h : Escaped.Written text bs) :
      unescape (String.ofList text) = .ok bs := by
    rw [unescape, String.toList_ofList]
    exact Escaped.read_of_denotes h.denotes
  refine ⟨Escaped.read_of_denotes hwritten.denotes, ?_, ?_, ?_⟩
  · intro c hc
    obtain ⟨hopen, hclose⟩ := hwritten.denotes.notMem_paren
    refine ⟨?_, hwritten.le_toNat c hc⟩
    simp only [List.mem_cons, List.not_mem_nil, or_false]
    rintro (rfl | rfl | rfl)
    · exact hopen hc
    · exact hclose hc
    · exact hwritten.notMem_star hc
  · intro before after htext
    rw [htext] at hwritten
    obtain ⟨_, _, -, -, hpiece⟩ := hwritten.cut (by decide)
    obtain ⟨b, rest, _, rfl, -, -⟩ := hpiece.of_backslash
    refine ⟨_, _, rest, rfl, ?_, ?_⟩
    · exact Hex.isLowerDigit_of_mem_pair (b := b) List.mem_cons_self
    · exact Hex.isLowerDigit_of_mem_pair (b := b) (List.mem_cons_of_mem _ List.mem_cons_self)
  · intro before c after htext hc
    rw [htext] at hwritten
    have hdigit : ¬Hex.IsLowerDigit c := by
      intro hdigit
      have hascii := hdigit.toNat_bounds
      omega
    obtain ⟨p, _, rfl, hbefore, hpiece⟩ := hwritten.cut hdigit
    obtain ⟨hwide, q, rfl, hafter⟩ := hpiece.of_wide hc
    have hfour : (String.utf8EncodeChar c).length = 4 := by
      rw [String.length_utf8EncodeChar, Char.utf8Size_eq_four_iff, UInt32.lt_iff_toNat_lt]
      exact hwide
    exact ⟨hwide, hfour, p, q, (List.append_assoc ..).symm, hread hbefore, hread hafter⟩

/-- A character of four octets, a parenthesis, an octet that announces the wildcard behind it, and the
start of a sequence that breaks off. -/
def brokenValue : Octets :=
  [0xF0, 0x9F, 0x98, 0x80, 0x28, 0xC3, 0x2A, 0xF0, 0x9F]

/-- The character stands as it is, right before the digits of the octets behind it, and each digit
pair and each character gives its own octets back. -/
theorem brokenValue_escaped :
    (escape brokenValue).toList = [] ++ '😀' :: "\\28\\c3\\2a\\f0\\9f".toList ∧
      unescape (escape brokenValue) = .ok brokenValue ∧
      (∃ high low rest, "28\\c3\\2a\\f0\\9f".toList = high :: low :: rest ∧ Hex.IsLowerDigit high ∧
        Hex.IsLowerDigit low) ∧
      ∃ p q, brokenValue = p ++ String.utf8EncodeChar '😀' ++ q ∧
        unescape (String.ofList []) = .ok p ∧
        unescape (String.ofList "\\28\\c3\\2a\\f0\\9f".toList) = .ok q := by
  have htext : (escape brokenValue).toList = [] ++ '😀' :: "\\28\\c3\\2a\\f0\\9f".toList := by cbv
  obtain ⟨hback, _, hdigits, hwide⟩ := unescape_escape_and_inert brokenValue
  obtain ⟨_, _, hplace⟩ := hwide _ _ _ htext (by decide)
  exact ⟨htext, hback, hdigits ['😀'] _ htext, hplace⟩

end SearchFilter
