import Mathlib.Tactic.Common
import SearchFilter.Ber.Reader
import SearchFilter.Proofs.Ber.Length
import SearchFilter.Proofs.Except
import SearchFilter.Proofs.Octets.Utf8

namespace SearchFilter.Ber

/-- The reader `r'` stands right behind the octets `x`, before which `r` stands. Each read is
characterized by the octets it passes, so that no later proof opens the reader itself. -/
structure Reader.Passes (r : Reader) (x : Octets) (r' : Reader) : Prop where
  rest_eq : r.rest = x ++ r'.rest
  offset_eq : r'.offset = r.offset + x.length

namespace Reader.Passes

variable {r s t : Reader} {x y : Octets}

theorem refl (r : Reader) : r.Passes [] r :=
  ⟨rfl, rfl⟩

theorem trans (hx : r.Passes x s) (hy : s.Passes y t) : r.Passes (x ++ y) t where
  rest_eq := by rw [hx.rest_eq, hy.rest_eq, List.append_assoc]
  offset_eq := by rw [hy.offset_eq, hx.offset_eq, List.length_append, Nat.add_assoc]

theorem remaining_eq (h : r.Passes x s) : r.remaining = x.length + s.remaining := by
  rw [remaining, h.rest_eq, List.length_append, remaining]

/-- Between two groups of octets there is a place for a reader, with any remembered length. -/
theorem split (h : r.Passes (x ++ y) t) (n : Nat) :
    ∃ s, r.Passes x s ∧ s.Passes y t ∧ s.length = n := by
  refine ⟨{ offset := r.offset + x.length, rest := y ++ t.rest, length := n }, ⟨?_, rfl⟩, ⟨rfl, ?_⟩, rfl⟩
  · rw [h.rest_eq, List.append_assoc]
  · rw [h.offset_eq, List.length_append, Nat.add_assoc]

/-- Octets passed and a remembered length determine where the reader stands. -/
theorem eq_of_length_eq (hs : r.Passes x s) (ht : r.Passes x t) (hlength : s.length = t.length) :
    s = t := by
  obtain ⟨offset, rest, length⟩ := s
  obtain ⟨offset', rest', length'⟩ := t
  have hrest := List.append_cancel_left (hs.rest_eq.symm.trans ht.rest_eq)
  have hoffset := hs.offset_eq.trans ht.offset_eq.symm
  simp_all

/-- What a reader remembers does not matter for where it stands. -/
theorem withLength (h : r.Passes x s) (n : Nat) : r.Passes x { s with length := n } :=
  ⟨h.rest_eq, h.offset_eq⟩

theorem withLength_left (h : r.Passes x s) (n : Nat) :
    Reader.Passes { r with length := n } x s :=
  ⟨h.rest_eq, h.offset_eq⟩

theorem eq_of_nil (h : r.Passes [] s) : r = { s with length := r.length } :=
  (refl r).eq_of_length_eq (h.withLength r.length) rfl

/-- The whole buffer is passed from its start. -/
theorem ofOctets (b : Octets) : (ofOctets b).Passes b ⟨b.length, [], 0⟩ :=
  ⟨(List.append_nil b).symm, (Nat.zero_add _).symm⟩

/-- The octets between two places of a buffer are passed. -/
theorem between (p x q : Octets) (n m : Nat) :
    (ofOctetsAt (p ++ x ++ q) p.length n).Passes x (ofOctetsAt (p ++ x ++ q) (p.length + x.length) m) where
  rest_eq := by
    rw [ofOctetsAt, ofOctetsAt, List.append_assoc, List.drop_left, ← List.drop_drop, List.drop_left,
      List.drop_left]
  offset_eq := rfl

/-- Octets that are passed in a buffer lie between two places of it. -/
theorem of_ofOctetsAt {data : Octets} {o n : Nat} (hne : x ≠ [])
    (h : (ofOctetsAt data o n).Passes x r) :
    r = ofOctetsAt data r.offset r.length ∧ o ≤ r.offset ∧ r.offset ≤ data.length ∧
      (data.drop o).take (r.offset - o) = x := by
  have hpos := List.length_pos_iff.2 hne
  have hoffset : r.offset = o + x.length := h.offset_eq
  have hrest : data.drop o = x ++ r.rest := h.rest_eq
  have hlength := congrArg List.length hrest
  rw [List.length_drop, List.length_append] at hlength
  have hbehind : data.drop r.offset = r.rest := by
    rw [hoffset, ← List.drop_drop, hrest, List.drop_left]
  refine ⟨?_, by omega, by omega, ?_⟩
  · rw [ofOctetsAt, hbehind]
  · rw [hrest, hoffset, Nat.add_sub_cancel_left, List.take_left]

end Reader.Passes

namespace Read

variable {α β : Type} {r r' : Reader}

/-- Reads one after the other succeed where the first does and the one behind it does from there. -/
theorem bind_eq_ok_iff {m : Read α} {k : α → Read β} {b : β} :
    (m >>= k) r = .ok b r' ↔ ∃ a s, m r = .ok a s ∧ k a s = .ok b r' :=
  EStateM.bind_eq_ok_iff

/-- Reads one after the other fail where the first does, or where it succeeds and the one behind it
fails. -/
theorem bind_eq_error_iff {m : Read α} {k : α → Read β} {e : FilterError} :
    (m >>= k) r = .error e r' ↔
      m r = .error e r' ∨ ∃ a s, m r = .ok a s ∧ k a s = .error e r' := by
  change EStateM.bind m k r = _ ↔ _
  unfold EStateM.bind
  cases m r <;> simp

theorem pure_eq_ok_iff {a b : α} : (pure a : Read α) r = .ok b r' ↔ a = b ∧ r = r' := by
  change EStateM.Result.ok a r = _ ↔ _
  simp

theorem fail_ne_ok {fault : BerFault} {a : α} : (fail fault : Read α) r ≠ .ok a r' := by
  intro h
  cases h

theorem throw_ne_ok {e : FilterError} {a : α} : (throw e : Read α) r ≠ .ok a r' := by
  intro h
  cases h

theorem offset_eq_ok_iff {n : Nat} : offset r = .ok n r' ↔ n = r.offset ∧ r' = r := by
  change EStateM.Result.ok r.offset r = _ ↔ _
  simp [eq_comm]

theorem lastLength_eq_ok_iff {n : Nat} : lastLength r = .ok n r' ↔ n = r.length ∧ r' = r := by
  change EStateM.Result.ok r.length r = _ ↔ _
  simp [eq_comm]

theorem get_eq_ok_iff {s : Reader} : (get : Read Reader) r = .ok s r' ↔ s = r ∧ r' = r := by
  change EStateM.Result.ok r r = _ ↔ _
  simp [eq_comm]

theorem ite_eq_ok_iff {p : Prop} [Decidable p] {m k : Read α} {a : α} :
    (if p then m else k) r = .ok a r' ↔ p ∧ m r = .ok a r' ∨ ¬p ∧ k r = .ok a r' := by
  by_cases hp : p <;> simp [hp]

theorem octet_eq_ok_iff {fault : BerFault} {b : UInt8} :
    octet fault r = .ok b r' ↔ r.Passes [b] r' ∧ r'.length = r.length := by
  obtain ⟨offset, rest, length⟩ := r
  unfold octet
  cases rest with
  | nil =>
    constructor
    · intro h
      cases h
    · rintro ⟨hpasses, _⟩
      cases hpasses.rest_eq
  | cons c rest =>
    constructor
    · intro h
      cases h
      exact ⟨⟨rfl, rfl⟩, rfl⟩
    · rintro ⟨hpasses, hlength⟩
      obtain ⟨rfl, hrest⟩ := List.cons.inj hpasses.rest_eq
      obtain ⟨offset', rest', length'⟩ := r'
      have hoffset := hpasses.offset_eq
      simp_all [Reader.advance]

/-- So many octets are read by passing them, and the remembered length stays what it was. -/
theorem octets_eq_ok_iff {n : Nat} {fault : Nat → BerFault} {bs : Octets} :
    octets n fault r = .ok bs r' ↔ bs.length = n ∧ r.Passes bs r' ∧ r'.length = r.length := by
  unfold octets
  rw [reaches_eq]
  by_cases hn : n ≤ r.rest.length
  · have hpasses : r.Passes (r.rest.take n) (r.advance n) :=
      ⟨(List.take_append_drop n r.rest).symm, by simp [Reader.advance, hn]⟩
    simp only [hn, decide_true, if_true, EStateM.Result.ok.injEq]
    constructor
    · rintro ⟨rfl, rfl⟩
      exact ⟨by simp [hn], hpasses, rfl⟩
    · rintro ⟨rfl, hbs, hlength⟩
      have htake : r.rest.take bs.length = bs := by simp [hbs.rest_eq]
      rw [htake] at hpasses ⊢
      exact ⟨rfl, hpasses.eq_of_length_eq hbs hlength.symm⟩
  · simp only [hn, decide_false, Bool.false_eq_true, if_false, reduceCtorEq, false_iff]
    rintro ⟨rfl, hbs, _⟩
    rw [hbs.rest_eq, List.length_append] at hn
    omega

theorem raw_eq_ok_iff {n : Nat} {bs : Octets} :
    raw n r = .ok bs r' ↔ bs.length = n ∧ r.Passes bs r' ∧ r'.length = r.length :=
  octets_eq_ok_iff

/-- A length is read off exactly its accepted forms. -/
theorem length_eq_ok_iff {n : Nat} :
    length r = .ok n r' ↔ ∃ x, LengthOctets n x ∧ r.Passes x r' ∧ r'.length = r.length := by
  simp only [length, bind_eq_ok_iff, ite_eq_ok_iff, octet_eq_ok_iff, octets_eq_ok_iff,
    pure_eq_ok_iff, fail_ne_ok, UInt8.lt_iff_toNat_lt, UInt8.reduceToNat, and_false, false_or]
  constructor
  · rintro ⟨first, s, ⟨hfirst, hs⟩, ⟨hshort, rfl, rfl⟩ | ⟨hlong, hsome, hfew, digits, t, hdigits, rfl, rfl⟩⟩
    · exact ⟨_, .short hshort, hfirst, hs⟩
    · obtain ⟨hcount, hpasses, ht⟩ := hdigits
      exact ⟨_, .long (by omega) (by omega) (by omega), hfirst.trans hpasses, ht.trans hs⟩
  · rintro ⟨x, hx, hpasses, hlength⟩
    cases hx with
    | short hb => exact ⟨_, r', ⟨hpasses, hlength⟩, .inl ⟨hb, rfl, rfl⟩⟩
    | @long count digits hcount hsome hfew =>
      obtain ⟨s, hfirst, hdigits, hs⟩ := Reader.Passes.split (x := [count]) hpasses r.length
      refine ⟨count, s, ⟨hfirst, hs⟩, .inr ⟨by omega, by omega, by omega, digits, r', ?_, rfl, rfl⟩⟩
      exact ⟨by omega, hdigits, hlength.trans hs.symm⟩

/-- A content length is remembered just where so much of the buffer is left. -/
theorem enter_eq_ok_iff {tag : UInt8} {n : Nat} {u : Unit} :
    enter tag n r = .ok u r' ↔ n ≤ r.rest.length ∧ r' = { r with length := n } := by
  unfold enter
  rw [reaches_eq]
  by_cases hn : n ≤ r.rest.length <;> simp [hn, eq_comm]

/-- A header is a tag and a form of the length, which the reader remembers and which does not reach
past the buffer. -/
theorem header_eq_ok_iff {t : UInt8} :
    header r = .ok t r' ↔
      ∃ x, LengthOctets r'.length x ∧ r.Passes (t :: x) r' ∧ r'.length ≤ r'.rest.length := by
  simp only [header, tag, bind_eq_ok_iff, octet_eq_ok_iff, length_eq_ok_iff, enter_eq_ok_iff,
    pure_eq_ok_iff]
  constructor
  · rintro ⟨_, s, ⟨htag, _⟩, n, u, ⟨x, hx, hlength, _⟩, _, _, ⟨hn, rfl⟩, rfl, rfl⟩
    exact ⟨x, hx, (htag.trans hlength).withLength n, hn⟩
  · rintro ⟨x, hx, hpasses, hn⟩
    obtain ⟨s, htag, hlength, hs⟩ := Reader.Passes.split (x := [t]) hpasses r.length
    exact ⟨t, s, ⟨htag, hs⟩, r'.length, { r' with length := r.length },
      ⟨x, hx, hlength.withLength _, hs.symm⟩, (), r', ⟨hn, rfl⟩, rfl, rfl⟩

theorem expect_eq_ok_iff {expected : UInt8} {context : String} {n : Nat} :
    expect expected context r = .ok n r' ↔ header r = .ok expected r' ∧ n = r'.length := by
  simp only [expect, bind_eq_ok_iff, ite_eq_ok_iff, lastLength_eq_ok_iff, throw_ne_ok, and_false,
    or_false]
  constructor
  · rintro ⟨_, s, hheader, rfl, rfl, rfl⟩
    exact ⟨hheader, rfl⟩
  · rintro ⟨hheader, rfl⟩
    exact ⟨expected, r', hheader, rfl, rfl, rfl⟩

/-- A header and the content that it announces are an element. -/
theorem header_raw_iff {t : UInt8} {bs : Octets} :
    (∃ s, header r = .ok t s ∧ raw s.length s = .ok bs r') ↔
      ∃ x, IsElement t bs x ∧ r.Passes x r' ∧ r'.length = bs.length := by
  simp only [header_eq_ok_iff, raw_eq_ok_iff]
  constructor
  · rintro ⟨s, ⟨x, hx, hheader, _⟩, hbs, hcontent, hr'⟩
    exact ⟨_, ⟨x, hbs ▸ hx, rfl⟩, hheader.trans hcontent, hr'.trans hbs.symm⟩
  · rintro ⟨_, ⟨x, hx, rfl⟩, hpasses, hr'⟩
    obtain ⟨s, hheader, hcontent, hs⟩ := hpasses.split bs.length
    refine ⟨s, ⟨x, hs ▸ hx, hheader, ?_⟩, hs.symm, hcontent, hr'.trans hs.symm⟩
    rw [hs, hcontent.rest_eq]
    simp

/-- An element is read as its content, which the reader passes and whose length it remembers. -/
theorem octetString_eq_ok_iff {tag : UInt8} {context : String} {bs : Octets} :
    octetString tag context r = .ok bs r' ↔
      ∃ x, IsElement tag bs x ∧ r.Passes x r' ∧ r'.length = bs.length := by
  rw [← header_raw_iff]
  simp only [octetString, bind_eq_ok_iff, expect_eq_ok_iff]
  constructor
  · rintro ⟨_, s, ⟨hheader, rfl⟩, hraw⟩
    exact ⟨s, hheader, hraw⟩
  · rintro ⟨s, hheader, hraw⟩
    exact ⟨_, s, ⟨hheader, rfl⟩, hraw⟩

/-- Octets are read as the text whose UTF-8 octets they are, and no octet is passed for it. -/
theorem text_eq_ok_iff {field : String} {bs : Octets} {s : String} :
    text field bs r = .ok s r' ↔ bs = Utf8.encode s ∧ r' = r := by
  rw [← Utf8.decode?_eq_some_iff, text]
  cases Utf8.decode? bs with
  | none => simp only [fail_ne_ok, reduceCtorEq, false_and]
  | some s' => simp only [pure_eq_ok_iff, Option.some.injEq, eq_comm]

/-- A text is read off an element whose content are its UTF-8 octets, in any form of the length. -/
theorem string_eq_ok_iff {tag : UInt8} {context s : String} :
    string tag context r = .ok s r' ↔
      ∃ x, IsElement tag (Utf8.encode s) x ∧ r.Passes x r' ∧ r'.length = (Utf8.encode s).length := by
  simp only [string, bind_eq_ok_iff, octetString_eq_ok_iff, text_eq_ok_iff]
  constructor
  · rintro ⟨_, _, helement, rfl, rfl⟩
    exact helement
  · intro helement
    exact ⟨_, r', helement, rfl, rfl⟩

private theorem bne_singleton (b : UInt8) : ([b] != [0]) = (b != 0) := by
  rw [Bool.eq_iff_iff, bne_iff_ne, bne_iff_ne]
  simp

/-- A truth value is read off an element with one octet, and is false only where that octet is
zero. -/
theorem boolean_eq_ok_iff {tag : UInt8} {context : String} {v : Bool} :
    boolean tag context r = .ok v r' ↔
      ∃ b x, IsElement tag [b] x ∧ v = (b != 0) ∧ r.Passes x r' ∧ r'.length = 1 := by
  have heq : boolean tag context r = .ok v r' ↔
      ∃ bs, octetString tag context r = .ok bs r' ∧ bs.length = 1 ∧ v = (bs != [0]) := by
    simp only [boolean, octetString, bind_eq_ok_iff, ite_eq_ok_iff, raw_eq_ok_iff, pure_eq_ok_iff,
      fail_ne_ok, and_false, or_false]
    constructor
    · rintro ⟨n, s, hexpect, rfl, bs, u, hraw, rfl, rfl⟩
      exact ⟨bs, ⟨1, s, hexpect, hraw⟩, hraw.1, rfl⟩
    · rintro ⟨bs, ⟨n, s, hexpect, hraw⟩, hone, rfl⟩
      obtain rfl : n = 1 := hraw.1.symm.trans hone
      exact ⟨1, s, hexpect, rfl, bs, r', hraw, rfl, rfl⟩
  simp only [heq, octetString_eq_ok_iff]
  constructor
  · rintro ⟨bs, ⟨x, hx, hpasses, hr'⟩, hone, rfl⟩
    obtain ⟨b, rfl⟩ := List.length_eq_one_iff.1 hone
    exact ⟨b, x, hx, bne_singleton b, hpasses, hr'⟩
  · rintro ⟨b, x, hx, rfl, hpasses, hr'⟩
    exact ⟨[b], ⟨x, hx, hpasses, hr'⟩, rfl, (bne_singleton b).symm⟩

/-- The element that stands for no value has no content. -/
theorem null_eq_ok_iff {u : Unit} :
    null r = .ok u r' ↔ ∃ x, IsElement nullTag [] x ∧ r.Passes x r' ∧ r'.length = 0 := by
  simp only [null, bind_eq_ok_iff, ite_eq_ok_iff, expect_eq_ok_iff, header_eq_ok_iff, pure_eq_ok_iff,
    fail_ne_ok, and_false, or_false]
  constructor
  · rintro ⟨n, s, ⟨⟨x, hx, hpasses, _⟩, rfl⟩, hzero, _, rfl⟩
    refine ⟨_, ⟨x, ?_, (List.append_nil _).symm⟩, hpasses, hzero⟩
    rwa [hzero] at hx
  · rintro ⟨_, ⟨x, hx, rfl⟩, hpasses, hzero⟩
    rw [List.append_nil] at hpasses
    refine ⟨0, r', ⟨⟨x, ?_, hpasses, by omega⟩, hzero.symm⟩, rfl, trivial, rfl⟩
    rwa [hzero]

end Read

end SearchFilter.Ber
