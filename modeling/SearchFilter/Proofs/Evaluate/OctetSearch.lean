import Mathlib.Tactic.Common
import SearchFilter.Proofs.Evaluate.LeafCoherence
import SearchFilter.Proofs.Evaluate.SubstringSearch
import SearchFilter.Proofs.Pattern.Octets

namespace SearchFilter.Filter

variable {name : String} {s : Substrings} {r : Record} {strict : Bool}

/-- An assertion holds where the octets of a single value hold its fragments, with replacement
characters for what is malformed in them, and no line break between two of them. -/
theorem holds_substring_iff_heldIn (hcompiles : (substring name s).Compiles) :
    (substring name s).holds r strict = .ok true ↔
      ∃ x ∈ r.valuesOf name strict, s.repaired.HeldIn Unbroken x.octets := by
  rw [holds_substring_iff hcompiles]
  simp only [← Substrings.heldIn_encodeChars_iff]
  rfl

/-- Of a name that stands for a single text, that text is searched. -/
theorem holds_substring_of_text {t : String} (hcompiles : (substring name s).Compiles)
    (hvalue : r.get? name strict = some (.one (.text t))) :
    (substring name s).holds r strict = .ok true ↔ s.repaired.HeldIn Unbroken (Utf8.encode t) := by
  rw [holds_substring_iff_heldIn hcompiles, Record.valuesOf_of_one hvalue]
  simp only [List.mem_singleton, exists_eq_left]
  rfl

/-- Of a single text an assertion holds where the octets of the text hold its fragments, malformed octets
replaced and without a line break in a gap. For fragments that are text it holds only where the octets hold
them in some way, and in just that case if there is no line break or no gap. Where a value is equal to octets
that hold the fragments without a line break in a gap, the assertion holds of it. -/
theorem substrings_held_across_unbroken_gaps (name : String) (s : Substrings) (r : Record) (strict : Bool)
    (hcompiles : (substring name s).Compiles) :
    (∀ t, r.get? name strict = some (.one (.text t)) →
        (∃ b, (substring name s).holds r strict = .ok b ∧
          (b = true ↔ s.repaired.HeldIn Unbroken (Utf8.encode t))) ∧
        ((∀ bs ∈ s.toList, bs.IsText) →
          ((substring name s).holds r strict = .ok true → s.HeldIn AnyGap (Utf8.encode t)) ∧
            ('\n' ∉ t.toList ∨ s.toList.length ≤ 1 →
              ((substring name s).holds r strict = .ok true ↔ s.HeldIn AnyGap (Utf8.encode t))))) ∧
      ∀ value, (comparison .equal name value).holds r strict = .ok true → (∀ bs ∈ s.toList, bs.IsText) →
        s.HeldIn Unbroken value → (substring name s).holds r strict = .ok true := by
  refine ⟨fun t hvalue => ⟨?_, fun htext => ?_⟩, fun value hequal htext hheld => ?_⟩
  · obtain ⟨b, hb⟩ : ∃ b, (substring name s).holds r strict = .ok b :=
      exists_holdsWith_eq_ok (isSchemaFree_leaf.2 rfl) hcompiles _ _ _
    refine ⟨b, hb, ?_⟩
    rw [← holds_substring_of_text hcompiles hvalue, hb, Except.ok.injEq]
  · rw [holds_substring_of_text hcompiles hvalue, Substrings.repaired_of_isText htext]
    refine ⟨fun hheld => hheld.imp fun _ _ _ => trivial, fun hbreak => ?_⟩
    refine Substrings.heldIn_unbroken_iff (hbreak.imp_left fun hnone => ?_)
    exact unbroken_encodeChars_iff.2 hnone
  · obtain ⟨x, hx, rfl⟩ := holds_comparison_iff.1 hequal
    rw [holds_substring_iff_heldIn hcompiles, Substrings.repaired_of_isText htext]
    exact ⟨x, hx, hheld⟩

/-- Two fragments, the first of which is a letter of two octets. -/
def letterThenB : Substrings :=
  { initial := none, any := [[0xC3, 0xA9], [0x62]], final := none }

/-- A record with these fragments in a text with a line break before them, and in one without. -/
def accentedRecord : Record :=
  .ofList [("cn", .one (.text "\né-b")), ("sn", .one (.text "é b"))]

/-- The fragments are found behind a line break, as none stands between them. Under a name in
another case they are found only without regard to case. -/
theorem letterThenB_found :
    (substring "cn" letterThenB).Compiles ∧ (∀ bs ∈ letterThenB.toList, bs.IsText) ∧
      (comparison .equal "cn" (Utf8.encode "\né-b")).holds accentedRecord true = .ok true ∧
      (substring "cn" letterThenB).holds accentedRecord true = .ok true ∧
      (substring "SN" letterThenB).holds accentedRecord true = .ok false ∧
      (substring "SN" letterThenB).holds accentedRecord false = .ok true := by
  have hcompiles (name : String) : (substring name letterThenB).Compiles :=
    compiles_leaf.2 ⟨Pattern.ofSubstrings letterThenB, rfl⟩
  have htext : ∀ bs ∈ letterThenB.toList, bs.IsText := by decide
  have hequal : (comparison .equal "cn" (Utf8.encode "\né-b")).holds accentedRecord true = .ok true := by
    cbv
  have hvalue : accentedRecord.get? "SN" false = some (.one (.text "é b")) := by decide
  have hgap : Unbroken [0x2D] := by
    unfold Unbroken
    decide
  have hheld : letterThenB.HeldIn Unbroken (Utf8.encode "\né-b") :=
    ⟨[0x0A], _, [], by decide, .cons hgap (.single [0x62]), by simp [letterThenB], by simp [letterThenB]⟩
  have hspace : AnyGap [0x20] := trivial
  have hheld' : letterThenB.HeldIn AnyGap (Utf8.encode "é b") :=
    ⟨[], _, [], by decide, .cons hspace (.single [0x62]), by simp [letterThenB], by simp [letterThenB]⟩
  refine ⟨hcompiles _, htext, hequal, ?_, ?_, ?_⟩
  · exact (substrings_held_across_unbroken_gaps "cn" _ _ _ (hcompiles _)).2 _ hequal htext hheld
  · exact holds_substring_of_none (by decide)
  · have hfound := (substrings_held_across_unbroken_gaps "SN" _ _ _ (hcompiles _)).1 _ hvalue
    exact ((hfound.2 htext).2 (.inl (by decide))).2 hheld'

/-- The fragments of a text on both sides of a line break. -/
def aroundLineBreak : Substrings :=
  { initial := some [0x61], any := [], final := some [0x62] }

/-- A fragment that no text has. -/
def strayOctet : Substrings :=
  { initial := none, any := [[0xFF]], final := none }

/-- A record with a line break in one text and a replacement character in another. -/
def brokenRecord : Record :=
  .ofList [("cn", .one (.text "a\nb")), ("sn", .one (.text "\uFFFD"))]

/-- A text that is two fragments with a line break between them is not found by them, though it is equal to
what they are cut from. A fragment that stands in no text is found in a replacement character. -/
theorem fragments_missed_and_misfound :
    aroundLineBreak.HeldIn AnyGap (Utf8.encode "a\nb") ∧
      (comparison .equal "cn" (Utf8.encode "a\nb")).holds brokenRecord true = .ok true ∧
      (substring "cn" aroundLineBreak).holds brokenRecord true = .ok false ∧
      ¬strayOctet.HeldIn AnyGap (Utf8.encode "\uFFFD") ∧
      (substring "sn" strayOctet).holds brokenRecord true = .ok true := by
  have hbreak : AnyGap [0x0A] := trivial
  have hheld : aroundLineBreak.HeldIn AnyGap (Utf8.encode "a\nb") :=
    ⟨[], _, [], by decide, .cons hbreak (.single [0x62]), fun _ => rfl, fun _ => rfl⟩
  refine ⟨hheld, by cbv, by cbv, fun hstray => ?_, by cbv⟩
  have hsubset : [0xFF] ⊆ Utf8.encode "\uFFFD" := hstray.subset (List.mem_singleton_self _)
  exact absurd hsubset (by decide)

end SearchFilter.Filter
