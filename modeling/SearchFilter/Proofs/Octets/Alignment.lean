import Mathlib.Tactic.Common
import SearchFilter.Proofs.Octets.Utf8

namespace SearchFilter.Utf8

theorem encodeChars_cons (c : Char) (cs : List Char) :
    encodeChars (c :: cs) = String.utf8EncodeChar c ++ encodeChars cs :=
  List.flatMap_cons

theorem encodeChars_append (cs ds : List Char) :
    encodeChars (cs ++ ds) = encodeChars cs ++ encodeChars ds :=
  List.flatMap_append

/-- Behind the first octet of a character, and only there, stand continuation octets. -/
theorem isTail_of_encodeChar {c : Char} {a : UInt8} {tail : Octets}
    (hencode : String.utf8EncodeChar c = a :: tail) :
    isTail a = false ∧ ∀ b ∈ tail, isTail b = true := by
  obtain ⟨v, hspells⟩ : ∃ v, Spells a tail v := ⟨_, spells_encodeCode c.valid hencode⟩
  have hlead (h : a.toNat < 0x80 ∨ 0xBF < a.toNat) : isTail a = false := by
    rw [← Bool.not_eq_true, isTail_iff]
    omega
  have hsecond {b : UInt8} (h : isSecond a b = true) : isTail b = true :=
    (isTail_iff b).2 ((isSecond_iff a b).1 h).1
  cases hspells with
  | one ha => exact ⟨hlead (by omega), by simp⟩
  | two hlo hhi hb => exact ⟨hlead (by omega), by simp [hb]⟩
  | three hlo hhi hb hc => exact ⟨hlead (by omega), by simp [hsecond hb, hc]⟩
  | four hlo hhi hb hc hd => exact ⟨hlead (by omega), by simp [hsecond hb, hc, hd]⟩

/-- Below `0x80` an octet stands for one character, and only there. -/
theorem mem_encodeChars_iff {b : UInt8} (hb : b.toNat < 0x80) {cs : List Char} :
    b ∈ encodeChars cs ↔ Char.ofNat b.toNat ∈ cs := by
  have hchar (c : Char) : b ∈ String.utf8EncodeChar c ↔ Char.ofNat b.toNat = c := by
    constructor
    · intro hmem
      obtain ⟨a, tail, hencode⟩ := List.exists_cons_of_ne_nil (String.utf8EncodeChar_ne_nil (c := c))
      have hspells : Spells a tail c.val.toNat := spells_encodeCode c.valid hencode
      rw [hencode, List.mem_cons] at hmem
      rcases hmem with rfl | hmem
      · generalize hcode : c.val.toNat = v at hspells
        cases hspells with
        | one _ => exact hcode ▸ Char.ofNat_toNat c
        | two | three | four => omega
      · have htail := (isTail_iff b).1 ((isTail_of_encodeChar hencode).2 b hmem)
        omega
    · rintro rfl
      rw [encodeChar_ofNat hb]
      exact List.mem_singleton_self b
  rw [encodeChars, List.mem_flatMap]
  simp only [hchar, exists_eq_right']

/-- Octets of a text that start with those of another are those of the other text and one behind it. -/
theorem exists_of_encodeChars_eq_append {cs ds : List Char} {after : Octets}
    (h : encodeChars cs = encodeChars ds ++ after) :
    ∃ rest, cs = ds ++ rest ∧ after = encodeChars rest := by
  induction ds generalizing cs with
  | nil => exact ⟨cs, rfl, h.symm⟩
  | cons d ds ih =>
    rw [encodeChars_cons, List.append_assoc] at h
    cases cs with
    | nil =>
      have hnil := (List.append_eq_nil_iff.1 h.symm).1
      exact absurd hnil String.utf8EncodeChar_ne_nil
    | cons c cs =>
      rw [encodeChars_cons] at h
      have hpieces := congrArg pieces h
      rw [pieces_encodeChar_append, pieces_encodeChar_append, List.cons.injEq, Option.some.injEq] at hpieces
      obtain rfl := hpieces.1
      obtain ⟨rest, rfl, hafter⟩ := ih (List.append_cancel_left h)
      exact ⟨rest, rfl, hafter⟩

/-- Where the octets of a text that is not empty stand in the octets of a text, texts stand before and
behind them. -/
theorem exists_of_encodeChars_eq {cs ds : List Char} (hds : ds ≠ []) {before after : Octets}
    (h : encodeChars cs = before ++ (encodeChars ds ++ after)) :
    ∃ start rest, cs = start ++ (ds ++ rest) ∧ before = encodeChars start ∧ after = encodeChars rest := by
  obtain ⟨d, ds, rfl⟩ := List.exists_cons_of_ne_nil hds
  obtain ⟨lead, tail, hd⟩ := List.exists_cons_of_ne_nil (String.utf8EncodeChar_ne_nil (c := d))
  induction cs generalizing before with
  | nil =>
    rw [encodeChars_cons, hd] at h
    simp [encodeChars] at h
  | cons c cs ih =>
    rw [encodeChars_cons] at h
    rcases List.append_eq_append_iff.1 h with ⟨before', rfl, hbehind⟩ | ⟨cut, hc, hbehind⟩
    · obtain ⟨start, rest, rfl, rfl, hafter⟩ := ih hbehind
      exact ⟨c :: start, rest, rfl, (encodeChars_cons c start).symm, hafter⟩
    · cases before with
      | nil =>
        rw [List.nil_append, ← encodeChars_cons] at h
        obtain ⟨rest, hcs, hafter⟩ := exists_of_encodeChars_eq_append h
        exact ⟨[], rest, hcs, rfl, hafter⟩
      | cons a before =>
        -- The text starts within `c` or right behind it, and within `c` no character starts.
        rw [encodeChars_cons, hd] at hbehind
        cases cut with
        | nil =>
          rw [← hd, ← encodeChars_cons] at hbehind
          have hnext : encodeChars cs = [] ++ (encodeChars (d :: ds) ++ after) := hbehind.symm
          obtain ⟨start, rest, rfl, hstart, hafter⟩ := ih hnext
          refine ⟨c :: start, rest, rfl, ?_, hafter⟩
          rw [encodeChars_cons, ← hstart, hc, List.append_nil, List.append_nil]
        | cons b cut =>
          obtain ⟨rfl, _⟩ := List.cons.inj hbehind
          have htail := (isTail_of_encodeChar hc).2 lead (by simp)
          rw [(isTail_of_encodeChar hd).1] at htail
          cases htail

end SearchFilter.Utf8
