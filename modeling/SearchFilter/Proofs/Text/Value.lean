import Mathlib.Tactic.Common
import SearchFilter.Proofs.Except
import SearchFilter.Proofs.Octets.Hex
import SearchFilter.Proofs.Octets.Utf8
import SearchFilter.Text.Escaped

namespace SearchFilter

namespace Escaped

/-- The text of a value and the octets it stands for: a backslash and two hexadecimal digits of
either case stand for an octet, and a character without a meaning in filter texts for its UTF-8
octets. -/
inductive Denotes : List Char → Octets → Prop where
  | nil : Denotes [] []
  | char {c : Char} {text : List Char} {bs : Octets} (hc : c ∉ ['(', ')', '\\'])
    (htext : Denotes text bs) : Denotes (c :: text) (String.utf8EncodeChar c ++ bs)
  | escape {high low : Char} {b : UInt8} {text : List Char} {bs : Octets}
    (hb : [high.toLower, low.toLower] = Hex.pair b) (htext : Denotes text bs) :
    Denotes ('\\' :: high :: low :: text) (b :: bs)

/-- A character that starts no escape stands for its UTF-8 octets, whatever follows it. -/
theorem read_cons_eq_ok_iff {c : Char} {rest : List Char} {bs : Octets} (hc : c ≠ '\\') :
    read (c :: rest) = .ok bs ↔ ∃ q, read rest = .ok q ∧ bs = String.utf8EncodeChar c ++ q := by
  rw [read.eq_def]
  simp only [hc, if_false, Except.bind_eq_ok_iff, Except.pure_eq_ok_iff, eq_comm (a := bs)]

/-- An escape is read if its two digits are, and then stands for one octet. -/
theorem read_escape_eq_ok_iff {high low : Char} {rest : List Char} {bs : Octets} :
    read ('\\' :: high :: low :: rest) = .ok bs ↔
      ∃ b q, Hex.octet? high low = some b ∧ read rest = .ok q ∧ bs = b :: q := by
  rw [read, if_pos rfl]
  cases Hex.octet? high low with
  | none => simp
  | some b => simp only [Except.bind_eq_ok_iff, Except.pure_eq_ok_iff, Option.some.injEq, exists_eq_left',
      exists_and_left, eq_comm (a := bs)]

/-- On both sides of a character that is no digit and no backslash, a text is read by itself. An escape
that breaks off in front of the character is at fault in the whole text, too. -/
theorem read_append_cons_eq_ok_iff {c : Char} (hdigit : Hex.value? c = none) (hplain : c ≠ '\\')
    {before after : List Char} {bs : Octets} :
    read (before ++ c :: after) = .ok bs ↔ ∃ p q, read before = .ok p ∧ read after = .ok q ∧
      bs = p ++ (String.utf8EncodeChar c ++ q) := by
  have hhigh (low : Char) : Hex.octet? c low = none := by simp [Hex.octet?, hdigit]
  have hlow (high : Char) : Hex.octet? high c = none := by
    rw [Hex.octet?, hdigit]
    cases Hex.value? high <;> rfl
  induction before using read.induct generalizing bs with
  | case1 => simp [read, read_cons_eq_ok_iff hplain]
  | case2 high low text b hb ih =>
    simp only [List.cons_append, read_escape_eq_ok_iff, ih]
    constructor
    · rintro ⟨b, _, hb, ⟨p, q, hp, hq, rfl⟩, rfl⟩
      exact ⟨b :: p, q, ⟨b, p, hb, hp, rfl⟩, hq, rfl⟩
    · rintro ⟨_, q, ⟨b, p, hb, hp, rfl⟩, hq, rfl⟩
      exact ⟨b, _, hb, ⟨p, q, hp, hq, rfl⟩, rfl⟩
  | case3 high low text hb => simp [read_escape_eq_ok_iff, hb]
  | case4 text htext =>
    match text, htext with
    | [], _ =>
      cases after with
      | nil => simp [read]
      | cons low after => simp [read, hhigh]
    | [high], _ => simp [read, hlow]
    | high :: low :: text, htext => exact absurd rfl (htext high low text)
  | case5 d text hd ih =>
    simp only [List.cons_append, read_cons_eq_ok_iff hd, ih]
    constructor
    · rintro ⟨_, ⟨p, q, hp, hq, rfl⟩, rfl⟩
      exact ⟨_, q, ⟨p, hp, rfl⟩, hq, by simp⟩
    · rintro ⟨_, q, ⟨p, hp, rfl⟩, hq, rfl⟩
      exact ⟨_, ⟨p, q, hp, hq, rfl⟩, by simp⟩

/-- A text is read as the octets it denotes. -/
theorem read_of_denotes {text : List Char} {bs : Octets} (h : Denotes text bs) :
    read text = .ok bs := by
  induction h with
  | nil => rfl
  | @char c text bs hc _ ih =>
    have hplain : c ≠ '\\' := by
      rintro rfl
      exact hc (by decide)
    exact (read_cons_eq_ok_iff hplain).2 ⟨bs, ih, rfl⟩
  | @escape high low b text bs hb _ ih =>
    exact read_escape_eq_ok_iff.2 ⟨b, bs, Hex.octet?_eq_some_iff.2 hb, ih, rfl⟩

/-- What is read from a text without parentheses is what it denotes; a parenthesis would be read as
a plain character. -/
theorem denotes_of_read {text : List Char} {bs : Octets} (hread : read text = .ok bs)
    (hopen : '(' ∉ text) (hclose : ')' ∉ text) : Denotes text bs := by
  fun_induction read text generalizing bs with
  | case1 =>
    cases hread
    exact .nil
  | case2 high low text b hb ih =>
    simp only [Except.bind_eq_ok_iff, Except.pure_eq_ok_iff] at hread
    obtain ⟨bs, hread, rfl⟩ := hread
    simp only [List.mem_cons, not_or] at hopen hclose
    exact .escape (Hex.octet?_eq_some_iff.1 hb) (ih hread hopen.2.2.2 hclose.2.2.2)
  | case3 => cases hread
  | case4 => cases hread
  | case5 c text hc ih =>
    simp only [Except.bind_eq_ok_iff, Except.pure_eq_ok_iff] at hread
    obtain ⟨bs, hread, rfl⟩ := hread
    simp only [List.mem_cons, not_or] at hopen hclose
    refine .char ?_ (ih hread hopen.2 hclose.2)
    simp [hc, Ne.symm hopen.1, Ne.symm hclose.1]

/-- What is written for a value: octets as digits, plain characters, and characters of four octets. -/
inductive Written : List Char → Octets → Prop where
  | nil : Written [] []
  | octet (b : UInt8) {text : List Char} {bs : Octets} (htext : Written text bs) :
    Written (octet b ++ text) (b :: bs)
  | plain {b : UInt8} {text : List Char} {bs : Octets} (hb : b.toNat < 0x80)
    (hplain : isSpecial b = false) (htext : Written text bs) :
    Written (Char.ofNat b.toNat :: text) (b :: bs)
  | wide {c : Char} {text : List Char} {bs : Octets} (hc : 0x10000 ≤ c.toNat)
    (htext : Written text bs) : Written (c :: text) (String.utf8EncodeChar c ++ bs)

/-- The octets of a character that is already written are skipped. -/
theorem writeAfter_eq_drop (n : Nat) (bs : Octets) :
    writeAfter n 0 bs = writeAfter 0 0 (bs.drop n) := by
  induction bs generalizing n with
  | nil => simp [writeAfter]
  | cons b bs ih =>
    cases n with
    | zero => rfl
    | succ n => rw [writeAfter, ih, List.drop_succ_cons]

/-- Whatever octets a lead octet has announced, they are written as digits. -/
theorem written_writeAfter (owed : Nat) (bs : Octets) : Written (writeAfter 0 owed bs) bs := by
  -- A character of four octets is written at once, so the rest is not always the tail.
  induction hlength : bs.length using Nat.strongRecOn generalizing owed bs with
  | _ n ih =>
    cases bs with
    | nil =>
      rw [writeAfter]
      exact .nil
    | cons b bs =>
      rw [List.length_cons] at hlength
      have hnext (owed : Nat) : Written (writeAfter 0 owed bs) bs := ih bs.length (by omega) owed bs rfl
      cases owed with
      | succ owed =>
        rw [writeAfter]
        exact .octet b (hnext owed)
      | zero =>
        rw [writeAfter]
        split_ifs with hb hspecial
        · exact .octet b (hnext 0)
        · exact .plain (UInt8.lt_iff_toNat_lt.1 hb) (Bool.eq_false_iff.2 hspecial) (hnext 0)
        · cases hfour : fourOctets? b bs with
          | none => exact .octet b (hnext _)
          | some c =>
            unfold fourOctets? at hfour
            split_ifs at hfour with hlead
            obtain ⟨tail, q, hencode, rfl, _⟩ := Utf8.encodeChar_of_start (Prod.ext hfour rfl)
            obtain ⟨hthree, hc⟩ := Utf8.length_eq_three_of_encodeChar hencode
              (UInt8.le_iff_toNat_le.1 hlead)
            dsimp only
            rw [writeAfter_eq_drop, List.drop_left' hthree]
            rw [List.length_append] at hlength
            have hrest := ih q.length (by omega) 0 q rfl
            rw [← List.cons_append, ← hencode]
            exact .wide hc hrest

/-- What is written for octets is made of digits, plain characters and characters of four octets. -/
theorem written_write (bs : Octets) : Written (write bs) bs :=
  written_writeAfter 0 bs

namespace Denotes

variable {text : List Char} {bs : Octets}

theorem notMem_paren (h : Denotes text bs) : '(' ∉ text ∧ ')' ∉ text := by
  induction h with
  | nil => simp
  | char hc _ ih =>
    simp only [List.mem_cons, not_or] at hc ⊢
    exact ⟨⟨Ne.symm hc.1, ih.1⟩, Ne.symm hc.2.1, ih.2⟩
  | escape hb _ ih =>
    have hopen := Hex.notMem_of_pair (c := '(') hb (by decide)
    have hclose := Hex.notMem_of_pair (c := ')') hb (by decide)
    simp only [List.mem_cons, not_or]
    exact ⟨⟨by decide, hopen.1, hopen.2, ih.1⟩, by decide, hclose.1, hclose.2, ih.2⟩

theorem eq_nil_iff (h : Denotes text bs) : bs = [] ↔ text = [] := by
  cases h with
  | nil => simp
  | char _ _ => simp [String.utf8EncodeChar_ne_nil]
  | escape _ _ => simp

end Denotes

/-- A plain character has no meaning in a filter text. -/
theorem ofNat_notMem {b : UInt8} (hb : b.toNat < 0x80) (hplain : isSpecial b = false) :
    Char.ofNat b.toNat ∉ ['(', ')', '\\', '*'] := by
  have hne {c : Char} (hc : (String.utf8EncodeChar c).all isSpecial = true) :
      Char.ofNat b.toNat ≠ c := by
    rintro rfl
    rw [Utf8.encodeChar_ofNat hb] at hc
    simp [hplain] at hc
  simp only [List.mem_cons, List.not_mem_nil, or_false, not_or]
  exact ⟨hne (by decide), hne (by decide), hne (by decide), hne (by decide)⟩

theorem wide_notMem {c : Char} (hc : 0x10000 ≤ c.toNat) : c ∉ ['(', ')', '\\', '*'] := by
  simp only [List.mem_cons, List.not_mem_nil, or_false]
  rintro (rfl | rfl | rfl | rfl) <;> exact absurd hc (by decide)

namespace Written

variable {text : List Char} {bs : Octets}

/-- What is written for octets denotes them. -/
theorem denotes (h : Written text bs) : Denotes text bs := by
  induction h with
  | nil => exact .nil
  | octet b _ ih => exact .escape (Hex.map_toLower_pair b) ih
  | @plain b _ bs hb hplain _ ih =>
    have hchar := ofNat_notMem hb hplain
    have hencode : b :: bs = String.utf8EncodeChar (Char.ofNat b.toNat) ++ bs := by
      rw [Utf8.encodeChar_ofNat hb]
      rfl
    rw [hencode]
    exact .char (fun hmem => hchar (List.mem_append_left ['*'] hmem)) ih
  | wide hc _ ih =>
    have hchar := wide_notMem hc
    exact .char (fun hmem => hchar (List.mem_append_left ['*'] hmem)) ih

/-- No wildcard is written for the octets of a value. -/
theorem notMem_star (h : Written text bs) : '*' ∉ text := by
  induction h with
  | nil => simp
  | octet b _ ih =>
    have hdigits := Hex.notMem_of_pair (c := '*') (Hex.map_toLower_pair b) (by decide)
    simp only [Escaped.octet, Hex.pair, List.cons_append, List.nil_append, List.mem_cons, not_or]
    exact ⟨by decide, hdigits.1, hdigits.2, ih⟩
  | plain hb hplain _ ih =>
    rw [List.mem_cons, not_or]
    refine ⟨?_, ih⟩
    intro hstar
    exact ofNat_notMem hb hplain (hstar ▸ by decide)
  | wide hc _ ih =>
    rw [List.mem_cons, not_or]
    refine ⟨?_, ih⟩
    rintro rfl
    exact wide_notMem hc (by decide)

end Written

/-- A text of plain characters is written as it is. -/
theorem writeText_eq {s : String}
    (hplain : ∀ c ∈ s.toList, c.toNat < 0x80 ∧ isSpecial (UInt8.ofNat c.toNat) = false) :
    writeText s = s.toList := by
  have hchars (cs : List Char)
      (hplain : ∀ c ∈ cs, c.toNat < 0x80 ∧ isSpecial (UInt8.ofNat c.toNat) = false) :
      writeAfter 0 0 (Utf8.encodeChars cs) = cs := by
    induction cs with
    | nil => rfl
    | cons c cs ih =>
      obtain ⟨hc, hspecial⟩ := hplain c List.mem_cons_self
      have hoctet : (UInt8.ofNat c.toNat).toNat = c.toNat := by
        rw [UInt8.toNat_ofNat']
        omega
      have hencode := Utf8.encodeChar_ofNat (hoctet.symm ▸ hc)
      have hlow : UInt8.ofNat c.toNat < 0x80 := UInt8.lt_iff_toNat_lt.2 (hoctet.symm ▸ hc)
      rw [hoctet, Char.ofNat_toNat] at hencode
      rw [Utf8.encodeChars, List.flatMap_cons, hencode, List.singleton_append, writeAfter, if_pos hlow,
        hspecial, if_neg (by decide), hoctet, Char.ofNat_toNat]
      exact congrArg _ (ih fun d hd => hplain d (List.mem_cons_of_mem _ hd))
  exact hchars s.toList hplain

end Escaped

end SearchFilter
