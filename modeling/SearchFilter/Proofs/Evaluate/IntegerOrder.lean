import Mathlib
import SearchFilter.Proofs.Evaluate.LeafCoherence

namespace SearchFilter

open Decimal

namespace Scalar

variable {n : Int64} {m : Int} {cs : List Char}

/-- An integer and a decimal assertion that a signed word can be are ordered by size, however the
assertion is spelled. -/
theorem order_of_fitsWord (hm : Denotes m cs) (hfits : FitsWord m) :
    (integer n).order (Utf8.encodeChars cs) = compare n.toInt m := by
  simp only [order, assertedInteger?_of_denotes hm, word?_of_fitsWord hfits]
  rw [toInt_ofInt_of_fitsWord hfits]

/-- An assertion that no signed word is counts as a text, so its octets are compared with those that
are written for the integer. -/
theorem order_of_not_fitsWord (hm : Denotes m cs) (hfits : ¬FitsWord m) :
    (integer n).order (Utf8.encodeChars cs) = compare (integer n).octets (Utf8.encodeChars cs) := by
  simp only [order, assertedInteger?_of_denotes hm, word?_of_not_fitsWord hfits]

/-- The octet of a digit is its code, which lies above that of a minus sign. -/
theorem encodeChar_digit {c : Char} (hc : isDigit c = true) :
    ∃ b : UInt8, String.utf8EncodeChar c = [b] ∧ 0x2D < b := by
  rw [isDigit, Bool.and_eq_true, decide_eq_true_eq, decide_eq_true_eq] at hc
  have hlow : 48 ≤ c.toNat := UInt32.le_iff_toNat_le.1 hc.1
  have hhigh : c.toNat ≤ 57 := UInt32.le_iff_toNat_le.1 hc.2
  have hcode : (UInt8.ofNat c.toNat).toNat = c.toNat :=
    UInt8.toNat_ofNat_of_lt' (Nat.lt_of_le_of_lt hhigh (by decide))
  refine ⟨UInt8.ofNat c.toNat, ?_, ?_⟩
  · have hencode := Utf8.encodeChar_ofNat (b := UInt8.ofNat c.toNat) (by omega)
    rwa [hcode, Char.ofNat_toNat] at hencode
  · rw [UInt8.lt_iff_toNat_lt, hcode]
    exact Nat.lt_of_lt_of_le (by decide) hlow

/-- A minus sign lies before every digit. -/
theorem compare_minus_digits (as : List Char) {bs : List Char} (hne : bs ≠ [])
    (hdigits : ∀ c ∈ bs, isDigit c = true) :
    compare (Utf8.encodeChars ('-' :: as)) (Utf8.encodeChars bs) = .lt := by
  obtain ⟨c, bs, rfl⟩ := List.exists_cons_of_ne_nil hne
  obtain ⟨b, hencode, hb⟩ := encodeChar_digit (hdigits c List.mem_cons_self)
  have hminus : Utf8.encodeChars ('-' :: as) = 0x2D :: Utf8.encodeChars as := rfl
  have hdigit : Utf8.encodeChars (c :: bs) = b :: Utf8.encodeChars bs := by
    rw [Utf8.encodeChars, List.flatMap_cons, hencode]
    rfl
  rw [hminus, hdigit, List.compare_cons_cons, Std.compare_eq_lt.2 hb]
  rfl

/-- Where just one of the numbers is negative, the octets are ordered as the numbers are. -/
theorem order_of_sign_ne (hm : Denotes m cs) (hsign : n.toInt < 0 ↔ 0 ≤ m) :
    (integer n).order (Utf8.encodeChars cs) = compare n.toInt m := by
  by_cases hfits : FitsWord m
  · exact order_of_fitsWord hm hfits
  rw [order_of_not_fitsWord hm hfits, octets, chars, ofInt]
  obtain ⟨digits, hne, hdigits, ⟨rfl, rfl⟩ | ⟨rfl, rfl⟩⟩ := hm
  · have hn : n.toInt < 0 := hsign.2 (Int.natCast_nonneg _)
    rw [if_pos hn, compare_minus_digits _ hne hdigits, eq_comm, compare_lt_iff_lt]
    omega
  · have hzero : value digits ≠ 0 := by
      intro hzero
      rw [hzero] at hfits
      exact hfits (by decide)
    have hn : ¬n.toInt < 0 := by omega
    have hlt := compare_minus_digits digits (ofNat_ne_nil n.toInt.natAbs)
      fun _ hc => isDigit_of_mem_ofNat hc
    rw [if_neg hn, Std.OrientedCmp.gt_of_lt hlt, eq_comm, compare_gt_iff_gt]
    omega

/-- The order is that of the numbers for every signed word, and past them where the octets happen to be
ordered so. -/
theorem order_eq_compare_toInt_iff (hm : Denotes m cs) :
    (integer n).order (Utf8.encodeChars cs) = compare n.toInt m ↔
      FitsWord m ∨ compare (integer n).octets (Utf8.encodeChars cs) = compare n.toInt m := by
  by_cases hfits : FitsWord m
  · simp [order_of_fitsWord hm hfits, hfits]
  · simp [order_of_not_fitsWord hm hfits, hfits]

end Scalar

namespace Comparison

variable {n : Int64} {m : Int} {cs : List Char}

/-- A value is at least the asserted integer, if that is a signed word, just where it is so as a
number. -/
theorem atLeast_accepts_iff (hm : Denotes m cs) (hfits : FitsWord m) :
    atLeast.Accepts (Utf8.encodeChars cs) (.integer n) ↔ m ≤ n.toInt := by
  rw [Accepts, Scalar.order_of_fitsWord hm hfits, ne_eq, compare_lt_iff_lt, not_lt]

/-- A value is at most the asserted integer, if that is a signed word, just where it is so as a
number. -/
theorem atMost_accepts_iff (hm : Denotes m cs) (hfits : FitsWord m) :
    atMost.Accepts (Utf8.encodeChars cs) (.integer n) ↔ n.toInt ≤ m := by
  rw [Accepts, Scalar.order_of_fitsWord hm hfits, ne_eq, compare_gt_iff_gt, not_lt]

end Comparison

namespace Filter

/-- A comparison with values that are all integers holds for one whose number it asks for. -/
theorem holds_comparison_iff_of_integers {r : Record} {name : String} {strict : Bool} {assertion : Octets}
    {op : Comparison} {p : Int → Prop} (hintegers : ∀ s ∈ r.valuesOf name strict, ∃ n, s = .integer n)
    (haccepts : ∀ n, op.Accepts assertion (.integer n) ↔ p n.toInt) :
    (comparison op name assertion).holds r strict = .ok true ↔
      ∃ n, .integer n ∈ r.valuesOf name strict ∧ p n.toInt := by
  rw [holds_comparison_iff]
  constructor
  · rintro ⟨s, hs, haccepted⟩
    obtain ⟨n, rfl⟩ := hintegers s hs
    exact ⟨n, hs, (haccepts n).1 haccepted⟩
  · rintro ⟨n, hn, hp⟩
    exact ⟨_, hn, (haccepts n).2 hp⟩

section

variable {r : Record} {name : String} {strict : Bool} {m m' : Int} {cs cs' : List Char}
  (hintegers : ∀ s ∈ r.valuesOf name strict, ∃ n, s = .integer n)
  (hm : Denotes m cs) (hfits : FitsWord m) (hm' : Denotes m' cs') (hfits' : FitsWord m')

include hintegers hm hfits

/-- On integers the assertion asks for one that is no less than the asserted number. -/
theorem holds_atLeast_iff :
    (comparison .atLeast name (Utf8.encodeChars cs)).holds r strict = .ok true ↔
      ∃ n, .integer n ∈ r.valuesOf name strict ∧ m ≤ n.toInt :=
  holds_comparison_iff_of_integers (p := fun k => m ≤ k) hintegers
    fun _ => Comparison.atLeast_accepts_iff hm hfits

/-- On integers the assertion asks for one that is no greater than the asserted number. -/
theorem holds_atMost_iff :
    (comparison .atMost name (Utf8.encodeChars cs)).holds r strict = .ok true ↔
      ∃ n, .integer n ∈ r.valuesOf name strict ∧ n.toInt ≤ m :=
  holds_comparison_iff_of_integers (p := fun k => k ≤ m) hintegers
    fun _ => Comparison.atMost_accepts_iff hm hfits

include hm' hfits'

/-- What is at least the greater number is at least the lesser one, so asking for more lets no other
record through. -/
theorem holds_atLeast_anti (hle : m ≤ m')
    (h : (comparison .atLeast name (Utf8.encodeChars cs')).holds r strict = .ok true) :
    (comparison .atLeast name (Utf8.encodeChars cs)).holds r strict = .ok true := by
  obtain ⟨n, hn, hle'⟩ := (holds_atLeast_iff hintegers hm' hfits').1 h
  exact (holds_atLeast_iff hintegers hm hfits).2 ⟨n, hn, hle.trans hle'⟩

/-- What is at most the lesser number is at most the greater one. -/
theorem holds_atMost_mono (hle : m ≤ m')
    (h : (comparison .atMost name (Utf8.encodeChars cs)).holds r strict = .ok true) :
    (comparison .atMost name (Utf8.encodeChars cs')).holds r strict = .ok true := by
  obtain ⟨n, hn, hle'⟩ := (holds_atMost_iff hintegers hm hfits).1 h
  exact (holds_atMost_iff hintegers hm' hfits').2 ⟨n, hn, hle'.trans hle⟩

end

/-- An integer and a decimal assertion of any length are ordered as the numbers are if the asserted one is a
signed word, or if just one of them is negative. Otherwise they are where the octets happen to be ordered so.
Of an attribute with integers only, a comparison with a signed word holds where one of them is as great or as
small as asked for, and goes on holding if less is asked. -/
theorem integers_ordered_within_words (r : Record) (name : String) (strict : Bool) {m m' : Int}
    {cs cs' : List Char} (hm : Denotes m cs) (hm' : Denotes m' cs') :
    (∀ n : Int64,
        ((Scalar.integer n).order (Utf8.encodeChars cs) = compare n.toInt m ↔
            FitsWord m ∨
              compare (Scalar.integer n).octets (Utf8.encodeChars cs) = compare n.toInt m) ∧
          ((n.toInt < 0 ↔ 0 ≤ m) →
            (Scalar.integer n).order (Utf8.encodeChars cs) = compare n.toInt m)) ∧
      ((∀ s ∈ r.valuesOf name strict, ∃ n, s = .integer n) → FitsWord m →
        ((comparison .atLeast name (Utf8.encodeChars cs)).holds r strict = .ok true ↔
            ∃ n, .integer n ∈ r.valuesOf name strict ∧ m ≤ n.toInt) ∧
          ((comparison .atMost name (Utf8.encodeChars cs)).holds r strict = .ok true ↔
            ∃ n, .integer n ∈ r.valuesOf name strict ∧ n.toInt ≤ m) ∧
          (FitsWord m' → m ≤ m' →
            ((comparison .atLeast name (Utf8.encodeChars cs')).holds r strict = .ok true →
                (comparison .atLeast name (Utf8.encodeChars cs)).holds r strict = .ok true) ∧
              ((comparison .atMost name (Utf8.encodeChars cs)).holds r strict = .ok true →
                (comparison .atMost name (Utf8.encodeChars cs')).holds r strict = .ok true))) := by
  refine ⟨fun n => ⟨Scalar.order_eq_compare_toInt_iff hm, Scalar.order_of_sign_ne hm⟩, ?_⟩
  intro hintegers hfits
  exact ⟨holds_atLeast_iff hintegers hm hfits, holds_atMost_iff hintegers hm hfits, fun hfits' hle =>
    ⟨holds_atLeast_anti hintegers hm hfits hm' hfits' hle,
      holds_atMost_mono hintegers hm hfits hm' hfits' hle⟩⟩

/-- A record with one small integer. -/
def smallRecord : Record :=
  .ofList [("uid", .one (.integer 9))]

/-- Zeros in front of a number do not matter, and no digit is taken for less than a minus sign. -/
theorem smallRecord_ordered :
    Denotes (-5) "-05".toList ∧ Denotes 9 "0009".toList ∧ FitsWord (-5) ∧ FitsWord 9 ∧
      (∀ s ∈ smallRecord.valuesOf "uid" true, ∃ n, s = .integer n) ∧
      (comparison .atMost "uid" (Utf8.encodeChars "-05".toList)).holds smallRecord true ≠ .ok true ∧
      (comparison .atLeast "uid" (Utf8.encodeChars "-05".toList)).holds smallRecord true = .ok true ∧
      (Scalar.integer 9).order (Utf8.encodeChars "-05".toList) = .gt := by
  have hneg : Denotes (-5) "-05".toList := ⟨['0', '5'], by decide, by simp [isDigit], .inr ⟨rfl, rfl⟩⟩
  have hnine : Denotes 9 "0009".toList :=
    ⟨['0', '0', '0', '9'], by decide, by simp [isDigit], .inl ⟨rfl, rfl⟩⟩
  have hvalues : smallRecord.valuesOf "uid" true = [.integer 9] := by decide
  have hintegers : ∀ s ∈ smallRecord.valuesOf "uid" true, ∃ n, s = .integer n := by
    simp [hvalues]
  have hfits : FitsWord (-5) := by decide
  have hfits' : FitsWord 9 := by decide
  have hless :
      (comparison .atLeast "uid" (Utf8.encodeChars "0009".toList)).holds smallRecord true = .ok true := by
    cbv
  obtain ⟨hcompare, hholds⟩ := integers_ordered_within_words smallRecord "uid" true hneg hnine
  obtain ⟨_, hatMost, hmono⟩ := hholds hintegers hfits
  refine ⟨hneg, hnine, hfits, hfits', hintegers, ?_, (hmono hfits' (by decide)).1 hless, ?_⟩
  · rw [ne_eq, hatMost]
    simp [hvalues]
  · rw [(hcompare 9).1.2 (.inl hfits)]
    decide

/-- A number that no signed word is. -/
def farNumber : List Char :=
  '1' :: List.replicate 19 '0'

/-- Past the words a small integer comes out as the greater one, since its first digit is. Asking for more
lets a record through that asking for less does not. -/
theorem smallRecord_misordered :
    Denotes (10 ^ 19) farNumber ∧ compare (9 : Int64).toInt (10 ^ 19) = .lt ∧
      (Scalar.integer 9).order (Utf8.encodeChars farNumber) = .gt ∧
      (comparison .atLeast "uid" (Utf8.encodeChars farNumber)).holds smallRecord true = .ok true ∧
      (comparison .atMost "uid" (Utf8.encodeChars farNumber)).holds smallRecord true = .ok false ∧
      (comparison .atLeast "uid" (Utf8.encodeChars "10".toList)).holds smallRecord true = .ok false := by
  have hfar : Denotes (10 ^ 19) farNumber :=
    ⟨farNumber, by decide, by simp [farNumber, isDigit], .inl ⟨rfl, by decide⟩⟩
  refine ⟨hfar, by decide, ?_, ?_, ?_, ?_⟩ <;> cbv

end Filter

end SearchFilter
