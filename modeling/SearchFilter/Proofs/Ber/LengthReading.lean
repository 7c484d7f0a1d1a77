import Mathlib.Tactic.Common
import SearchFilter.Proofs.Ber.Loop
import SearchFilter.Proofs.Ber.Minimal

namespace SearchFilter.Ber

/-- The number with these digits in base 256, shifted one by one into a word of 32 bits. -/
def shiftIn (digits : Octets) : UInt32 :=
  digits.foldl (fun n b => n <<< 8 ||| b.toUInt32) 0

/-- In a word with eight bits to spare nothing is shifted out. -/
theorem toNat_shiftLeft_eight {n : UInt32} (hn : n.toNat < 2 ^ 24) : (n <<< 8).toNat = 2 ^ 8 * n.toNat := by
  simp only [UInt32.toNat_shiftLeft, UInt32.reduceToNat, Nat.shiftLeft_eq, Nat.reduceMod, Nat.reducePow]
  omega

/-- The digit that comes next fills the bits that were made free. -/
theorem toNat_shiftLeft_or {n : UInt32} (hn : n.toNat < 2 ^ 24) (b : UInt8) :
    (n <<< 8 ||| b.toUInt32).toNat = n.toNat * 256 + b.toNat := by
  have hor := Nat.two_pow_add_eq_or_of_lt (i := 8) b.toNat_lt n.toNat
  rw [UInt32.toNat_or, toNat_shiftLeft_eight hn, UInt8.toNat_toUInt32, ← hor, Nat.mul_comm]

/-- Up to four digits are shifted in without loss. -/
theorem toNat_shiftIn {digits : Octets} (hfew : digits.length ≤ 4) :
    (shiftIn digits).toNat = ofBase256 digits := by
  induction digits using List.reverseRecOn with
  | nil => rfl
  | append_singleton digits b ih =>
    rw [List.length_append, List.length_singleton] at hfew
    have hvalue := ih (by omega)
    have hlt := ofBase256_lt digits
    have hpow : 256 ^ digits.length ≤ 256 ^ 3 := Nat.pow_le_pow_right (by decide) (by omega)
    rw [ofBase256_append_singleton, ← hvalue, ← toNat_shiftLeft_or (by omega), shiftIn, List.foldl_append]
    rfl

/-- Shifting up to three digits further drops no bit of them. -/
theorem shiftIn_shiftLeft_shiftRight {digits : Octets} (hfew : digits.length < 4) :
    shiftIn digits <<< 8 >>> 8 = shiftIn digits := by
  have hlt := ofBase256_lt digits
  have hpow : 256 ^ digits.length ≤ 256 ^ 3 := Nat.pow_le_pow_right (by decide) (by omega)
  rw [← toNat_shiftIn (by omega)] at hlt
  apply UInt32.toNat_inj.1
  rw [UInt32.toNat_shiftRight, toNat_shiftLeft_eight (by omega), Nat.shiftRight_eq_div_pow]
  exact Nat.mul_div_cancel_left _ (by decide)

namespace Read

/-- Reads the length octets of a header as `length` does, and shifts the digits into a word of 32 bits. -/
def lengthWord : Read UInt32 := do
  let first ← octet .missingLength
  if first < 0x80 then return first.toUInt32
  else
    let count := first.toNat - 128
    if count = 0 then fail .indefiniteLength
    else if 4 < count then fail (.lengthTooLarge count)
    else return shiftIn (← octets count (.truncatedLength count))

/-- A word of 32 bits is wide enough for all that is read, and nothing is refused or read otherwise for its
sake. -/
theorem length_eq_toNat_lengthWord : length = UInt32.toNat <$> lengthWord := by
  funext r
  rw [length, lengthWord, map_bind]
  refine bind_congr rfl fun first s _ => ?_
  dsimp only
  split_ifs with hshort hsome hfew
  · rfl
  · rfl
  · rfl
  · rw [map_bind]
    refine bind_congr rfl fun digits t hdigits => ?_
    have hcount := (octets_eq_ok_iff.1 hdigits).1
    rw [map_pure, toNat_shiftIn (by omega)]

variable {r : Reader} {n : Nat} {rest : Octets}

/-- What is written for a length that four digits hold is read as it and passed. -/
theorem length_of_encodeLength (hn : n < 2 ^ 32) (hrest : r.rest = encodeLength n ++ rest) :
    length r = .ok n { r with offset := r.offset + (encodeLength n).length, rest } :=
  length_eq_ok_iff.2 ⟨_, lengthOctets_encodeLength hn, ⟨hrest, rfl⟩, rfl⟩

/-- A length that takes more than four digits is refused at the octet that counts them. -/
theorem length_of_encodeLength_of_le (hn : 2 ^ 32 ≤ n) (hword : n < 2 ^ 64)
    (hrest : r.rest = encodeLength n ++ rest) :
    length r = .error (.ber (.lengthTooLarge ((encodeLength n).length - 1))) (r.advance 1) := by
  have hmany : 4 < (toBase256 n).length := by
    by_contra hfew
    have hlt := ofBase256_lt (toBase256 n)
    have hpow : 256 ^ (toBase256 n).length ≤ 256 ^ 4 := Nat.pow_le_pow_right (by decide) (by omega)
    rw [ofBase256_toBase256] at hlt
    omega
  have hroom : (toBase256 n).length ≤ 8 := length_toBase256_le hword
  have hcount : (UInt8.ofNat (128 + (toBase256 n).length)).toNat = 128 + (toBase256 n).length := by
    rw [UInt8.toNat_ofNat']
    omega
  rw [encodeLength, if_neg (by omega)] at hrest ⊢
  have hfirst : octet .missingLength r =
      .ok (UInt8.ofNat (128 + (toBase256 n).length)) (r.advance 1) := by
    rw [octet, hrest]
    rfl
  rw [length]
  change EStateM.bind _ _ r = _
  rw [EStateM.bind, hfirst]
  dsimp only
  have hlong : ¬UInt8.ofNat (128 + (toBase256 n).length) < 0x80 := by
    simp only [UInt8.lt_iff_toNat_lt, hcount, UInt8.reduceToNat]
    omega
  rw [if_neg hlong, hcount, if_neg (by omega), if_pos (by omega), Nat.add_sub_cancel_left, List.length_cons,
    Nat.add_sub_cancel]
  rfl

end Read

/-- What is written for a length below `2 ^ 32` is read as it and no more than that is passed. Whatever is
read as a length is such a one, and is not shorter than what is written for it, nor as short unless it is the
same. Reading with a word of 32 bits comes to the same and shifts out no bit. What is written for a greater
length is refused. -/
theorem length_octets_exact_and_minimal (r : Reader) :
    (∀ (n : Nat) (rest : Octets), n < 2 ^ 32 → r.rest = encodeLength n ++ rest →
        Read.length r = .ok n { r with offset := r.offset + (encodeLength n).length, rest }) ∧
      (∀ (n : Nat) (r' : Reader), Read.length r = .ok n r' →
        n < 2 ^ 32 ∧ ∃ x, r.Passes x r' ∧ (encodeLength n).length ≤ x.length ∧
          (x.length = (encodeLength n).length → x = encodeLength n)) ∧
      (Read.length r = (UInt32.toNat <$> Read.lengthWord) r ∧
        ∀ digits : Octets, digits.length < 4 → shiftIn digits <<< 8 >>> 8 = shiftIn digits) ∧
      ∀ (n : Nat) (rest : Octets), 2 ^ 32 ≤ n → n < 2 ^ 64 → r.rest = encodeLength n ++ rest →
        Read.length r = .error (.ber (.lengthTooLarge ((encodeLength n).length - 1))) (r.advance 1) := by
  refine ⟨fun n rest hn hrest => Read.length_of_encodeLength hn hrest, fun n r' h => ?_, ⟨?_, ?_⟩,
    fun n rest hn hword hrest => Read.length_of_encodeLength_of_le hn hword hrest⟩
  · obtain ⟨x, hx, hpasses, _⟩ := Read.length_eq_ok_iff.1 h
    exact ⟨hx.lt, x, hpasses, hx.length_encodeLength_le, fun hlength => hx.eq_encodeLength (Nat.le_of_eq hlength)⟩
  · rw [← Read.length_eq_toNat_lengthWord]
  · intro digits hfew
    exact shiftIn_shiftLeft_shiftRight hfew

/-- A length of 256 in four digits, with an octet behind it. -/
def paddedLength : Octets :=
  [0x84, 0x00, 0x00, 0x01, 0x00, 0x41]

/-- The largest length that is read, one that takes a digit more and is refused at its first octet,
and one in four digits where two would do. -/
theorem lengths_about_the_limit :
    Read.length (.ofOctets [0x84, 0xFF, 0xFF, 0xFF, 0xFF, 0x41]) = .ok (2 ^ 32 - 1) ⟨5, [0x41], 0⟩ ∧
      Read.length (.ofOctets [0x85, 0x01, 0x00, 0x00, 0x00, 0x00, 0x41]) =
        .error (.ber (.lengthTooLarge 5)) ⟨1, [0x01, 0x00, 0x00, 0x00, 0x00, 0x41], 0⟩ ∧
      Read.length (.ofOctets paddedLength) = .ok 256 ⟨5, [0x41], 0⟩ ∧
      (∃ x, (Reader.ofOctets paddedLength).Passes x ⟨5, [0x41], 0⟩ ∧ (encodeLength 256).length ≤ x.length) ∧
      shiftIn [0xFF, 0xFF, 0xFF] <<< 8 >>> 8 = shiftIn [0xFF, 0xFF, 0xFF] := by
  have hlast : encodeLength (2 ^ 32 - 1) = [0x84, 0xFF, 0xFF, 0xFF, 0xFF] := by
    simp [encodeLength, toBase256]
  have hpast : encodeLength (2 ^ 32) = [0x85, 0x01, 0x00, 0x00, 0x00, 0x00] := by
    simp [encodeLength, toBase256]
  have hpadded : Read.length (.ofOctets paddedLength) = .ok 256 ⟨5, [0x41], 0⟩ := by cbv
  obtain ⟨hread, _, hshifted, _⟩ :=
    length_octets_exact_and_minimal (.ofOctets [0x84, 0xFF, 0xFF, 0xFF, 0xFF, 0x41])
  obtain ⟨_, _, _, hrefused⟩ :=
    length_octets_exact_and_minimal (.ofOctets [0x85, 0x01, 0x00, 0x00, 0x00, 0x00, 0x41])
  obtain ⟨_, haccepted, _, _⟩ := length_octets_exact_and_minimal (.ofOctets paddedLength)
  refine ⟨?_, ?_, hpadded, ?_, hshifted.2 [0xFF, 0xFF, 0xFF] (by decide)⟩
  · rw [hread (2 ^ 32 - 1) [0x41] (by omega) (by rw [hlast]; rfl), hlast]
    rfl
  · rw [hrefused (2 ^ 32) [0x41] (by omega) (by omega) (by rw [hpast]; rfl), hpast]
    rfl
  · obtain ⟨_, x, hpasses, hlength, _⟩ := haccepted 256 _ hpadded
    exact ⟨x, hpasses, hlength⟩

end SearchFilter.Ber
