import Mathlib.Tactic.Common
import SearchFilter.Octets.Utf8

namespace SearchFilter.Utf8

theorem isTail_iff (b : UInt8) : isTail b = true ↔ 0x80 ≤ b.toNat ∧ b.toNat ≤ 0xBF := by
  simp [isTail, UInt8.le_iff_toNat_le]

/-- A second octet is a continuation octet, within the bounds that four of the leads narrow. -/
theorem isSecond_iff (lead b : UInt8) :
    isSecond lead b = true ↔ (0x80 ≤ b.toNat ∧ b.toNat ≤ 0xBF) ∧
      (lead.toNat = 0xE0 → 0xA0 ≤ b.toNat) ∧ (lead.toNat = 0xED → b.toNat ≤ 0x9F) ∧
      (lead.toNat = 0xF0 → 0x90 ≤ b.toNat) ∧ (lead.toNat = 0xF4 → b.toNat ≤ 0x8F) := by
  have heq (n : UInt8) : lead = n ↔ lead.toNat = n.toNat := UInt8.toNat_inj.symm
  simp only [isSecond, secondBounds, Bool.and_eq_true, decide_eq_true_eq, UInt8.le_iff_toNat_le, heq,
    UInt8.reduceToNat]
  split_ifs <;> simp only [UInt8.reduceToNat] <;> omega

/-- The code point that a lead octet and the octets behind it spell. Both the reader and the writer
are measured against this relation. -/
inductive Spells : UInt8 → Octets → Nat → Prop where
  | one {a : UInt8} (ha : a.toNat < 0x80) : Spells a [] a.toNat
  | two {a b : UInt8} (hlo : 0xC2 ≤ a.toNat) (hhi : a.toNat < 0xE0) (hb : isTail b = true) :
    Spells a [b] (a.toNat % 32 * 64 + tailBits b)
  | three {a b c : UInt8} (hlo : 0xE0 ≤ a.toNat) (hhi : a.toNat < 0xF0) (hb : isSecond a b = true)
    (hc : isTail c = true) :
    Spells a [b, c] (a.toNat % 16 * 4096 + tailBits b * 64 + tailBits c)
  | four {a b c d : UInt8} (hlo : 0xF0 ≤ a.toNat) (hhi : a.toNat < 0xF5) (hb : isSecond a b = true)
    (hc : isTail c = true) (hd : isTail d = true) :
    Spells a [b, c, d]
      (a.toNat % 8 * 262144 + tailBits b * 4096 + tailBits c * 64 + tailBits d)

/-- Reading finds every spelled code point, whatever follows it. -/
theorem Spells.start_eq {a : UInt8} {tail : Octets} {v : Nat} (hspells : Spells a tail v)
    (rest : Octets) : start a (tail ++ rest) = (some (Char.ofNat v), tail.length) := by
  unfold start
  simp only [UInt8.lt_iff_toNat_lt, UInt8.reduceToNat]
  cases hspells with
  | one ha => rw [if_pos ha]; rfl
  | two hlo hhi hb =>
    rw [if_neg (by omega), if_neg (by omega), if_pos hhi]
    simp [hb]
  | three hlo hhi hb hc =>
    rw [if_neg (by omega), if_neg (by omega), if_neg (by omega), if_pos hhi]
    simp [hb, hc]
  | four hlo hhi hb hc hd =>
    rw [if_neg (by omega), if_neg (by omega), if_neg (by omega), if_neg (by omega), if_pos hhi]
    simp [hb, hc, hd]

/-- Reading finds nothing but spelled code points. -/
theorem spells_of_start {a : UInt8} {rest : Octets} {c : Char} {n : Nat}
    (hstart : start a rest = (some c, n)) :
    ∃ tail q v, Spells a tail v ∧ rest = tail ++ q ∧ n = tail.length ∧ c = Char.ofNat v := by
  unfold start at hstart
  simp only [UInt8.lt_iff_toNat_lt, UInt8.reduceToNat] at hstart
  split_ifs at hstart with h1 h2 h3 h4 h5
  · cases hstart
    exact ⟨[], rest, _, .one h1, rfl, rfl, rfl⟩
  · cases hstart
  · match rest, hstart with
    | b :: q, hstart =>
      dsimp only at hstart
      split_ifs at hstart with hb
      · cases hstart
        exact ⟨[b], q, _, .two (by omega) h3 hb, rfl, rfl, rfl⟩
      · cases hstart
  · match rest, hstart with
    | b :: d :: q, hstart =>
      dsimp only at hstart
      split_ifs at hstart with hb hd
      · cases hstart
        exact ⟨[b, d], q, _, .three (by omega) h4 hb hd, rfl, rfl, rfl⟩
      all_goals cases hstart
    | [b], hstart =>
      dsimp only at hstart
      split_ifs at hstart
      all_goals cases hstart
  · match rest, hstart with
    | b :: d :: e :: q, hstart =>
      dsimp only at hstart
      split_ifs at hstart with hb hd he
      · cases hstart
        exact ⟨[b, d, e], q, _, .four (by omega) h5 hb hd he, rfl, rfl, rfl⟩
      all_goals cases hstart
    | [b], hstart =>
      dsimp only at hstart
      split_ifs at hstart
      all_goals cases hstart
    | [b, d], hstart =>
      dsimp only at hstart
      split_ifs at hstart
      all_goals cases hstart
  · cases hstart

/-- The octets that a code point is written as. -/
def encodeCode (v : Nat) : Octets :=
  if v ≤ 0x7F then [UInt8.ofNat v]
  else if v ≤ 0x7FF then [UInt8.ofNat (v / 64 % 32 + 0xC0), UInt8.ofNat (v % 64 + 0x80)]
  else if v ≤ 0xFFFF then
    [UInt8.ofNat (v / 4096 % 16 + 0xE0), UInt8.ofNat (v / 64 % 64 + 0x80), UInt8.ofNat (v % 64 + 0x80)]
  else
    [UInt8.ofNat (v / 262144 % 8 + 0xF0), UInt8.ofNat (v / 4096 % 64 + 0x80),
      UInt8.ofNat (v / 64 % 64 + 0x80), UInt8.ofNat (v % 64 + 0x80)]

/-- The core function writes a character by its code point. -/
theorem encodeChar_eq (c : Char) : String.utf8EncodeChar c = encodeCode c.toNat := rfl

/-- Writing a code point spells it. -/
theorem spells_encodeCode {v : Nat} (hvalid : v.isValidChar) {a : UInt8} {tail : Octets}
    (hcode : encodeCode v = a :: tail) : Spells a tail v := by
  have octet {n : Nat} (h : n < 256) : (UInt8.ofNat n).toNat = n := UInt8.toNat_ofNat_of_lt' h
  have hbound : v < 0xD800 ∨ 0xDFFF < v ∧ v < 0x110000 := hvalid
  unfold encodeCode at hcode
  split_ifs at hcode with h1 h2 h3
  · obtain ⟨rfl, rfl⟩ := List.cons.inj hcode
    have ha := octet (n := v) (by omega)
    have hspells := Spells.one (a := UInt8.ofNat v) (by omega)
    rwa [ha] at hspells
  · obtain ⟨rfl, rfl⟩ := List.cons.inj hcode
    have ha := octet (n := v / 64 % 32 + 0xC0) (by omega)
    have hb := octet (n := v % 64 + 0x80) (by omega)
    have hspells := Spells.two (a := UInt8.ofNat (v / 64 % 32 + 0xC0)) (b := UInt8.ofNat (v % 64 + 0x80))
      (by omega) (by omega) (by rw [isTail_iff]; omega)
    have hvalue : (v / 64 % 32 + 0xC0) % 32 * 64 + (v % 64 + 0x80) % 64 = v := by omega
    rwa [tailBits, ha, hb, hvalue] at hspells
  · obtain ⟨rfl, rfl⟩ := List.cons.inj hcode
    have ha := octet (n := v / 4096 % 16 + 0xE0) (by omega)
    have hb := octet (n := v / 64 % 64 + 0x80) (by omega)
    have hc := octet (n := v % 64 + 0x80) (by omega)
    have hspells := Spells.three (a := UInt8.ofNat (v / 4096 % 16 + 0xE0))
      (b := UInt8.ofNat (v / 64 % 64 + 0x80)) (c := UInt8.ofNat (v % 64 + 0x80))
      (by omega) (by omega) (by rw [isSecond_iff]; omega) (by rw [isTail_iff]; omega)
    have hvalue : (v / 4096 % 16 + 0xE0) % 16 * 4096 + (v / 64 % 64 + 0x80) % 64 * 64 +
        (v % 64 + 0x80) % 64 = v := by omega
    rwa [tailBits, tailBits, ha, hb, hc, hvalue] at hspells
  · obtain ⟨rfl, rfl⟩ := List.cons.inj hcode
    have ha := octet (n := v / 262144 % 8 + 0xF0) (by omega)
    have hb := octet (n := v / 4096 % 64 + 0x80) (by omega)
    have hc := octet (n := v / 64 % 64 + 0x80) (by omega)
    have hd := octet (n := v % 64 + 0x80) (by omega)
    have hspells := Spells.four (a := UInt8.ofNat (v / 262144 % 8 + 0xF0))
      (b := UInt8.ofNat (v / 4096 % 64 + 0x80)) (c := UInt8.ofNat (v / 64 % 64 + 0x80))
      (d := UInt8.ofNat (v % 64 + 0x80)) (by omega) (by omega) (by rw [isSecond_iff]; omega)
      (by rw [isTail_iff]; omega) (by rw [isTail_iff]; omega)
    have hvalue : (v / 262144 % 8 + 0xF0) % 8 * 262144 + (v / 4096 % 64 + 0x80) % 64 * 4096 +
        (v / 64 % 64 + 0x80) % 64 * 64 + (v % 64 + 0x80) % 64 = v := by omega
    rwa [tailBits, tailBits, tailBits, ha, hb, hc, hd, hvalue] at hspells

/-- What is spelled is a code point, and writing it spells it the same way. The bounds on the second
octet are what leaves out overlong forms, surrogates and numbers past the last code point. -/
theorem Spells.encodeCode_eq {a : UInt8} {tail : Octets} {v : Nat} (hspells : Spells a tail v) :
    v.isValidChar ∧ encodeCode v = a :: tail := by
  have back (b : UInt8) {n : Nat} (h : n = b.toNat) : UInt8.ofNat n = b := by simp [h]
  unfold Nat.isValidChar encodeCode
  cases hspells with
  | one ha =>
    refine ⟨by omega, ?_⟩
    rw [if_pos (by omega), back a rfl]
  | @two b hlo hhi hb =>
    rw [isTail_iff] at hb
    unfold tailBits
    refine ⟨by omega, ?_⟩
    rw [if_neg (by omega), if_pos (by omega), back a (by omega), back b (by omega)]
  | @three b c hlo hhi hb hc =>
    rw [isSecond_iff] at hb
    rw [isTail_iff] at hc
    unfold tailBits
    refine ⟨by omega, ?_⟩
    rw [if_neg (by omega), if_neg (by omega), if_pos (by omega), back a (by omega),
      back b (by omega), back c (by omega)]
  | @four b c d hlo hhi hb hc hd =>
    rw [isSecond_iff] at hb
    rw [isTail_iff] at hc hd
    unfold tailBits
    refine ⟨by omega, ?_⟩
    rw [if_neg (by omega), if_neg (by omega), if_neg (by omega), back a (by omega),
      back b (by omega), back c (by omega), back d (by omega)]

/-- The octets of a character are read as the character, whatever follows them. -/
theorem start_encodeChar {c : Char} {a : UInt8} {tail : Octets}
    (hencode : String.utf8EncodeChar c = a :: tail) (rest : Octets) :
    start a (tail ++ rest) = (some c, tail.length) := by
  rw [encodeChar_eq] at hencode
  have hself : Char.ofNat c.val.toNat = c := Char.ofNat_toNat c
  rw [(spells_encodeCode c.valid hencode).start_eq, hself]

theorem toNat_ofNat {v : Nat} (hvalid : v.isValidChar) : (Char.ofNat v).toNat = v := by
  have hchar : Char.ofNat v = Char.ofNatAux v hvalid := dif_pos hvalid
  rw [hchar]
  rfl

/-- A character that an octet string starts with is written as the octets it was read from. -/
theorem encodeChar_of_start {a : UInt8} {rest : Octets} {c : Char} {n : Nat}
    (hstart : start a rest = (some c, n)) :
    ∃ tail q, String.utf8EncodeChar c = a :: tail ∧ rest = tail ++ q ∧ n = tail.length := by
  obtain ⟨tail, q, v, hspells, hrest, hn, rfl⟩ := spells_of_start hstart
  obtain ⟨hvalid, hcode⟩ := hspells.encodeCode_eq
  exact ⟨tail, q, by rw [encodeChar_eq, toNat_ofNat hvalid, hcode], hrest, hn⟩

/-- Only the lead octet of a character outside the first plane is that high, and three octets follow
it. -/
theorem length_eq_three_of_encodeChar {c : Char} {a : UInt8} {tail : Octets}
    (hencode : String.utf8EncodeChar c = a :: tail) (ha : 0xF0 ≤ a.toNat) :
    tail.length = 3 ∧ 0x10000 ≤ c.toNat := by
  rw [encodeChar_eq, encodeCode] at hencode
  split_ifs at hencode with h1 h2 h3
  all_goals obtain ⟨rfl, rfl⟩ := List.cons.inj hencode
  all_goals rw [UInt8.toNat_ofNat'] at ha
  · omega
  · omega
  · omega
  · exact ⟨rfl, by omega⟩

/-- Below `0x80` an octet is a character of its own. -/
theorem encodeChar_ofNat {b : UInt8} (hb : b.toNat < 0x80) :
    String.utf8EncodeChar (Char.ofNat b.toNat) = [b] := by
  have hstart : start b [] = (some (Char.ofNat b.toNat), 0) :=
    (Spells.one hb).start_eq []
  obtain ⟨tail, q, hencode, _, hlength⟩ := encodeChar_of_start hstart
  rw [hencode, List.length_eq_zero_iff.1 hlength.symm]

theorem piecesAfter_eq (skip : Nat) (bs : Octets) : piecesAfter skip bs = pieces (bs.drop skip) := by
  induction bs generalizing skip with
  | nil => cases skip <;> rfl
  | cons b bs ih =>
    cases skip with
    | zero => rfl
    | succ skip => exact ih skip

/-- The octets of a character are one piece, and the rest is cut as it would be alone. -/
theorem pieces_encodeChar_append (c : Char) (rest : Octets) :
    pieces (String.utf8EncodeChar c ++ rest) = some c :: pieces rest := by
  obtain ⟨a, tail, hencode⟩ := List.exists_cons_of_ne_nil (String.utf8EncodeChar_ne_nil (c := c))
  rw [hencode, List.cons_append, pieces, piecesAfter, start_encodeChar hencode, piecesAfter_eq]
  simp

/-- The octets of characters are cut into these characters, and no run of them is malformed. -/
theorem pieces_encodeChars (cs : List Char) : pieces (encodeChars cs) = cs.map some := by
  induction cs with
  | nil => rfl
  | cons c cs ih =>
    have hcons : encodeChars (c :: cs) = String.utf8EncodeChar c ++ encodeChars cs := rfl
    rw [hcons, pieces_encodeChar_append, ih, List.map_cons]

/-- The octets of characters are read as these characters. -/
theorem decodeChars?_encodeChars (cs : List Char) : decodeChars? (encodeChars cs) = some cs := by
  rw [decodeChars?, pieces_encodeChars]
  induction cs with
  | nil => rfl
  | cons c cs ih => simp [ih]

/-- Nothing is replaced in the octets of a text. -/
theorem decodeLossy_encode (s : String) : decodeLossy (encode s) = s := by
  have hpieces : (pieces (encode s)).map (·.getD replacement) = s.toList := by
    rw [encode, pieces_encodeChars, List.map_map]
    exact List.map_id _
  rw [decodeLossy, decodeCharsLossy, hpieces, String.ofList_toList]

/-- Octets that are read as characters are the octets of these characters. -/
theorem encodeChars_of_decodeChars? {bs : Octets} {cs : List Char} (hdecode : decodeChars? bs = some cs) :
    bs = encodeChars cs := by
  induction hn : bs.length using Nat.strongRecOn generalizing bs cs with
  | ind n ih =>
    cases bs with
    | nil =>
      cases hdecode
      rfl
    | cons a rest =>
      rw [decodeChars?, pieces, piecesAfter, piecesAfter_eq] at hdecode
      simp only [List.mapM_cons, id_eq, Option.bind_eq_bind, Option.bind_eq_some_iff,
        Option.pure_def, Option.some.injEq] at hdecode
      obtain ⟨c, hc, cs', hcs', rfl⟩ := hdecode
      obtain ⟨tail, q, hencode, rfl, htail⟩ := encodeChar_of_start (Prod.ext hc rfl)
      simp only [htail, List.drop_left] at hcs'
      rw [ih q.length (by simp at hn; omega) hcs' rfl]
      simp [encodeChars, hencode]

/-- Strict reading finds exactly the texts whose octets it is given. -/
theorem decode?_eq_some_iff {bs : Octets} {s : String} : decode? bs = some s ↔ bs = encode s := by
  rw [decode?, Option.map_eq_some_iff]
  constructor
  · rintro ⟨cs, hcs, rfl⟩
    rw [encode, String.toList_ofList]
    exact encodeChars_of_decodeChars? hcs
  · rintro rfl
    exact ⟨s.toList, decodeChars?_encodeChars s.toList, String.ofList_toList⟩

/-- Texts with the same octets are the same. -/
theorem encode_injective {s t : String} (h : encode s = encode t) : s = t := by
  have hs := decode?_eq_some_iff.2 (rfl : encode s = encode s)
  rw [h, decode?_eq_some_iff.2 rfl] at hs
  exact (Option.some.inj hs).symm

end SearchFilter.Utf8

namespace SearchFilter.Octets

/-- Octets that are the text of some characters. -/
def IsText (bs : Octets) : Prop :=
  ∃ s, Utf8.decode? bs = some s

instance decidableIsText (bs : Octets) : Decidable bs.IsText :=
  decidable_of_iff _ Option.isSome_iff_exists

/-- Octets of a text are those of the text that they are shown as. -/
theorem eq_encode_of_isText {bs : Octets} (h : bs.IsText) : bs = Utf8.encode (Utf8.decodeLossy bs) := by
  obtain ⟨s, hs⟩ := h
  rw [Utf8.decode?_eq_some_iff] at hs
  rw [hs, Utf8.decodeLossy_encode]

end SearchFilter.Octets
