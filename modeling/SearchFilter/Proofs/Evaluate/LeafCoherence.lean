import Mathlib
import SearchFilter.Proofs.Evaluate.Leaf
import SearchFilter.Proofs.Octets.Utf8
import SearchFilter.Proofs.Text.Decimal

namespace SearchFilter

namespace Scalar

variable {s : Scalar} {n : Int64} {assertion : Octets}

/-- An assertion is an integer if its octets are a text, and that text without white space around it
is a signed word. -/
theorem assertedInteger?_eq_some_iff :
    assertedInteger? assertion = some n ↔
      ∃ cs, Utf8.decodeChars? assertion = some cs ∧ Decimal.int64? (Blank.trim cs) = some n := by
  rw [assertedInteger?, Option.bind_eq_bind, Option.bind_eq_some_iff]

/-- A decimal text asserts its integer, if that is a signed word. -/
theorem assertedInteger?_of_denotes {m : Int} {cs : List Char} (h : Decimal.Denotes m cs) :
    assertedInteger? (Utf8.encodeChars cs) = Decimal.word? m := by
  rw [assertedInteger?, Utf8.decodeChars?_encodeChars, Option.bind_eq_bind, Option.bind_some,
    Decimal.trim_of_denotes h, Decimal.int64?_of_denotes h]

/-- The text of an integer asserts that integer. -/
theorem assertedInteger?_octets (n : Int64) : assertedInteger? (integer n).octets = some n := by
  rw [octets, chars, assertedInteger?_of_denotes (Decimal.denotes_ofInt _), Decimal.word?_toInt]

/-- Every value but an integer is compared by the octets of its text. -/
theorem order_eq_compare (hs : ∀ n, s ≠ integer n) : s.order assertion = compare s.octets assertion := by
  cases s with
  | integer n => exact absurd rfl (hs n)
  | _ => rfl

/-- A value that is no integer is equal in order just to its own text. -/
theorem order_eq_iff_octets (hs : ∀ n, s ≠ integer n) :
    s.order assertion = .eq ↔ s.octets = assertion := by
  rw [order_eq_compare hs, Std.LawfulEqCmp.compare_eq_iff_eq]

/-- An integer is equal in order to every text that is read as it. -/
theorem order_integer_eq_iff : (integer n).order assertion = .eq ↔ assertedInteger? assertion = some n := by
  unfold order
  split
  case h_1 x k m hx hasserted =>
    obtain rfl := integer.inj hx
    rw [hasserted, Std.LawfulEqCmp.compare_eq_iff_eq, Int64.toInt_inj, Option.some.injEq, eq_comm]
  case h_2 hnone =>
    have hne : assertedInteger? assertion ≠ some n := fun h => hnone n n rfl h
    -- Octets that are no integer are not the text of one.
    have hoctets : (integer n).octets ≠ assertion := by
      rintro rfl
      exact hne (assertedInteger?_octets n)
    simp [hne, hoctets, Std.LawfulEqCmp.compare_eq_iff_eq]

/-- Whatever kind of value it is, it is equal in order to its own text. -/
theorem order_of_octets_eq (h : s.octets = assertion) : s.order assertion = .eq := by
  by_cases hs : ∀ n, s ≠ integer n
  · exact (order_eq_iff_octets hs).2 h
  · simp only [not_forall, not_not] at hs
    obtain ⟨n, rfl⟩ := hs
    exact order_integer_eq_iff.2 (h ▸ assertedInteger?_octets n)

theorem order_eq_iff_ne : s.order assertion = .eq ↔ s.order assertion ≠ .lt ∧ s.order assertion ≠ .gt := by
  cases s.order assertion <;> simp

end Scalar

variable {r : Record} {name : String} {strict : Bool} {assertion : Octets}

theorem Record.valuesOf_of_one {s : Scalar} (h : r.get? name strict = some (.one s)) :
    r.valuesOf name strict = [s] := by
  rw [valuesOf, h]
  rfl

namespace Filter

/-- A single value lies on neither side of an assertion value just where it is equal in order. -/
theorem holds_both_iff_of_one {s : Scalar} (h : r.get? name strict = some (.one s)) :
    ((comparison .atLeast name assertion).holds r strict = .ok true ∧
        (comparison .atMost name assertion).holds r strict = .ok true) ↔
      s.order assertion = .eq := by
  simp [holds_comparison_iff, Record.valuesOf_of_one h, Comparison.Accepts, Scalar.order_eq_iff_ne]

/-- The assertions on one attribute go together. A value that is equal is also at least and at most as
great. A value that passes any of them is there. Any value is at least or at most as great. A single
value is both where it is equal, and an integer where the assertion, without white space around it, is
this integer, however it is written. -/
theorem leaf_assertions_cohere (r : Record) (name : String) (strict : Bool) (assertion : Octets) :
    ((comparison .equal name assertion).holds r strict = .ok true →
        (comparison .atLeast name assertion).holds r strict = .ok true ∧
          (comparison .atMost name assertion).holds r strict = .ok true) ∧
      ((∀ op, (comparison op name assertion).holds r strict = .ok true →
          (leaf (.presence name)).holds r strict = .ok true) ∧
        ∀ fragments, (substring name fragments).holds r strict = .ok true →
          (leaf (.presence name)).holds r strict = .ok true) ∧
      (r.valuesOf name strict ≠ [] →
        (comparison .atLeast name assertion).holds r strict = .ok true ∨
          (comparison .atMost name assertion).holds r strict = .ok true) ∧
      (∀ s, r.get? name strict = some (.one s) → (∀ n, s ≠ .integer n) →
        (((comparison .atLeast name assertion).holds r strict = .ok true ∧
            (comparison .atMost name assertion).holds r strict = .ok true) ↔
          (comparison .equal name assertion).holds r strict = .ok true)) ∧
      ∀ n, r.get? name strict = some (.one (.integer n)) →
        (((comparison .atLeast name assertion).holds r strict = .ok true ∧
            (comparison .atMost name assertion).holds r strict = .ok true) ↔
          ∃ cs, Utf8.decodeChars? assertion = some cs ∧
            Decimal.int64? (Blank.trim cs) = some n) := by
  refine ⟨?_, ⟨?_, ?_⟩, ?_, ?_, ?_⟩
  · intro hequal
    obtain ⟨s, hs, hoctets⟩ := holds_comparison_iff.1 hequal
    have horder := Scalar.order_eq_iff_ne.1 (Scalar.order_of_octets_eq hoctets)
    exact ⟨holds_comparison_iff.2 ⟨s, hs, horder.1⟩, holds_comparison_iff.2 ⟨s, hs, horder.2⟩⟩
  · intro op hop
    obtain ⟨s, hs, _⟩ := holds_comparison_iff.1 hop
    exact holds_presence_of_mem hs
  · intro fragments hfragments
    obtain ⟨p, hp⟩ := exists_compile_of_holds_substring hfragments
    rw [holds_substring_of_compile hp, Except.ok.injEq, List.any_eq_true] at hfragments
    obtain ⟨s, hs, _⟩ := hfragments
    exact holds_presence_of_mem hs
  · intro hvalues
    obtain ⟨s, hs⟩ := List.exists_mem_of_ne_nil _ hvalues
    by_cases hlt : s.order assertion = .lt
    · refine .inr (holds_comparison_iff.2 ⟨s, hs, ?_⟩)
      simp [Comparison.Accepts, hlt]
    · exact .inl (holds_comparison_iff.2 ⟨s, hs, hlt⟩)
  · intro s hget hs
    rw [holds_both_iff_of_one hget, Scalar.order_eq_iff_octets hs]
    simp [holds_comparison_iff, Record.valuesOf_of_one hget, Comparison.Accepts]
  · intro n hget
    rw [holds_both_iff_of_one hget, Scalar.order_integer_eq_iff, Scalar.assertedInteger?_eq_some_iff]

/-- A record with an integer, a truth value and a list of both kinds. -/
def mixedRecord : Record :=
  .ofList [("uid", .one (.integer 1000)), ("locked", .one (.bool true)),
    ("tags", .many [.text "b", .integer 7])]

/-- The assertion that a value starts with one letter. -/
def startsWithB : Substrings :=
  { initial := some [0x62], any := [], final := none }

/-- A text with white space, a sign and a zero is no other integer, though it is not equal to its text. -/
theorem mixedRecord_coheres :
    (comparison .equal "tags" (Utf8.encode "7")).holds mixedRecord true = .ok true ∧
      (comparison .atMost "tags" (Utf8.encode "7")).holds mixedRecord true = .ok true ∧
      (leaf (.presence "tags")).holds mixedRecord true = .ok true ∧
      (substring "tags" startsWithB).holds mixedRecord true = .ok true ∧
      mixedRecord.valuesOf "tags" true ≠ [] ∧
      mixedRecord.get? "UID" false = some (.one (.integer 1000)) ∧
      ((comparison .atLeast "UID" (Utf8.encode " +01000\n")).holds mixedRecord false = .ok true ∧
        (comparison .atMost "UID" (Utf8.encode " +01000\n")).holds mixedRecord false = .ok true) ∧
      (comparison .equal "UID" (Utf8.encode " +01000\n")).holds mixedRecord false = .ok false ∧
      mixedRecord.get? "locked" true = some (.one (.bool true)) ∧
      (comparison .atMost "locked" (Utf8.encode "TRUE")).holds mixedRecord true = .ok true := by
  have hequal : (comparison .equal "tags" (Utf8.encode "7")).holds mixedRecord true = .ok true := by
    cbv
  have hnot : (comparison .equal "UID" (Utf8.encode " +01000\n")).holds mixedRecord false = .ok false := by
    cbv
  have htrue : (comparison .equal "locked" (Utf8.encode "TRUE")).holds mixedRecord true = .ok true := by
    rfl
  have hpart : (substring "tags" startsWithB).holds mixedRecord true = .ok true := by
    rfl
  have hvalues : mixedRecord.valuesOf "tags" true ≠ [] := by decide
  have huid : mixedRecord.get? "UID" false = some (.one (.integer 1000)) := by decide
  have hlocked : mixedRecord.get? "locked" true = some (.one (.bool true)) := by decide
  obtain ⟨hbetween, ⟨_, hpresent⟩, _⟩ :=
    leaf_assertions_cohere mixedRecord "tags" true (Utf8.encode "7")
  obtain ⟨_, _, _, _, hinteger⟩ :=
    leaf_assertions_cohere mixedRecord "UID" false (Utf8.encode " +01000\n")
  obtain ⟨_, _, _, hsingle, _⟩ :=
    leaf_assertions_cohere mixedRecord "locked" true (Utf8.encode "TRUE")
  have hread : ∃ cs, Utf8.decodeChars? (Utf8.encode " +01000\n") = some cs ∧
      Decimal.int64? (Blank.trim cs) = some 1000 := ⟨_, Utf8.decodeChars?_encodeChars _, by decide⟩
  refine ⟨hequal, (hbetween hequal).2, hpresent _ hpart, hpart, hvalues, huid,
    (hinteger 1000 huid).2 hread, hnot, hlocked, ?_⟩
  exact ((hsingle _ hlocked (by intro n h; cases h)).2 htrue).2

end Filter

end SearchFilter
