import Mathlib.Tactic.Common
import SearchFilter.Proofs.Ber.Loop
import SearchFilter.Proofs.Filter.Decoding

namespace SearchFilter

open Ber

/-- The tag of a header is the first octet of the buffer. -/
theorem Ber.Read.head?_eq_of_header {b : Octets} {t : UInt8} {s : Reader}
    (h : Read.header (.ofOctets b) = .ok t s) : b.head? = some t := by
  obtain ⟨l, _, hpasses, _⟩ := header_eq_ok_iff.1 h
  have hb : b = (t :: l) ++ s.rest := hpasses.rest_eq
  rw [hb]
  rfl

namespace Decoding

/-- What a read gives on a whole buffer depends on what it does from the start of it. -/
theorem whole_congr {read read' : Read Filter} {b : Octets}
    (h : read (.ofOctets b) = read' (.ofOctets b)) : whole read b = whole read' b := by
  have hcomplete : complete read (.ofOctets b) = complete read' (.ofOctets b) :=
    Read.bind_congr h fun _ _ _ => rfl
  rw [whole, whole, hcomplete]

end Decoding

namespace Filter

open Decoding

section
variable {kind : Kind} {b : Octets} {f : Filter}

/-- What is accepted with an expected kind starts with the header of that kind. -/
theorem exists_header_of_ofBerAs (h : ofBerAs kind b = .ok f) :
    ∃ s, Read.header (.ofOctets b) = .ok kind.tag s := by
  obtain ⟨r, hread, _⟩ := whole_eq_ok_iff.1 h
  simp only [Read.bind_eq_ok_iff, Read.ite_eq_ok_iff, Read.throw_ne_ok, and_false, or_false] at hread
  obtain ⟨_, s, hheader, rfl, _⟩ := hread
  exact ⟨s, hheader⟩

theorem exists_header_of_ofBer (h : ofBer b = .ok f) : ∃ s, Read.header (.ofOctets b) = .ok f.tag s := by
  obtain ⟨r, hread, _⟩ := whole_eq_ok_iff.1 h
  rw [filter, ampleDepth, filterWithin, Read.bind_eq_ok_iff] at hread
  obtain ⟨t, s, hheader, _⟩ := hread
  have htag : some t = some f.tag :=
    (Read.head?_eq_of_header hheader).symm.trans (ofBer_eq_ok_iff.1 h).1.head?_eq
  obtain rfl := Option.some.inj htag
  exact ⟨s, hheader⟩

/-- Octets that start as the expected kind does are decoded as if no kind was expected, and refused for
the same reasons. -/
theorem ofBerAs_eq_ofBer (h : b.head? = some kind.tag) : ofBerAs kind b = ofBer b := by
  refine whole_congr (Read.bind_congr rfl fun t s hheader => ?_)
  have htag : t = kind.tag := Option.some.inj ((Read.head?_eq_of_header hheader).symm.trans h)
  rw [if_pos htag, htag, Kind.ofTag?_tag]
  rfl

/-- A header with another tag is refused, with both tags told. -/
theorem ofBerAs_eq_tagMismatch {t : UInt8} {s : Reader} (hheader : Read.header (.ofOctets b) = .ok t s)
    (ht : t ≠ kind.tag) : ofBerAs kind b = .error (.tagMismatch kind.name kind.tag t) := by
  refine whole_eq_error (s := s) (Read.bind_eq_error_iff.2 (.inr ⟨t, s, hheader, ?_⟩))
  rw [if_neg ht]
  rfl

/-- With an expected kind the filters of that kind are accepted, as they are without it. -/
theorem ofBerAs_eq_ok_iff : ofBerAs kind b = .ok f ↔ ofBer b = .ok f ∧ f.kind = kind := by
  constructor
  · intro h
    obtain ⟨s, hheader⟩ := exists_header_of_ofBerAs h
    have hhead := Read.head?_eq_of_header hheader
    rw [ofBerAs_eq_ofBer hhead] at h
    have htag : some f.tag = some kind.tag := (ofBer_eq_ok_iff.1 h).1.head?_eq.symm.trans hhead
    exact ⟨h, Kind.tag_injective (Option.some.inj htag)⟩
  · rintro ⟨h, rfl⟩
    rw [ofBerAs_eq_ofBer (ofBer_eq_ok_iff.1 h).1.head?_eq, h]

end

/-- Decoding with an expected kind is decoding and a test of the tag. What is accepted is what is accepted
without the expectation and is of that kind, with the same filter, and a filter of another kind is refused
for its tag, which is the first octet. -/
theorem expected_kind_tests_tag (kind : Kind) (b : Octets) :
    (∀ f, ofBerAs kind b = .ok f ↔ ofBer b = .ok f ∧ f.kind = kind) ∧
      (∀ f, (∃ g, ofBerAs kind b = .ok g ∧ (g == f) = true) ↔
        (∃ g, ofBer b = .ok g ∧ (g == f) = true) ∧ f.kind = kind) ∧
      (b.head? = some kind.tag → ofBerAs kind b = ofBer b) ∧
      ∀ f, ofBer b = .ok f → f.kind ≠ kind →
        ofBerAs kind b = .error (.tagMismatch kind.name kind.tag f.tag) ∧ b.head? = some f.tag := by
  refine ⟨fun f => ofBerAs_eq_ok_iff, fun f => ?_, ofBerAs_eq_ofBer, fun f hf hkind => ?_⟩
  · simp only [ofBerAs_eq_ok_iff]
    constructor
    · rintro ⟨g, ⟨hg, rfl⟩, hequal⟩
      exact ⟨⟨g, hg, hequal⟩, (kind_eq_of_beq hequal).symm⟩
    · rintro ⟨⟨g, hg, hequal⟩, rfl⟩
      exact ⟨g, ⟨hg, kind_eq_of_beq hequal⟩, hequal⟩
  · obtain ⟨s, hheader⟩ := exists_header_of_ofBer hf
    have htag : f.tag ≠ kind.tag := fun htag => hkind (Kind.tag_injective htag)
    exact ⟨ofBerAs_eq_tagMismatch hheader htag, Read.head?_eq_of_header hheader⟩

/-- Octets that encode a negated presence test, with lengths that are longer than they need to be. -/
def paddedNegation : Octets :=
  [0xA2, 0x81, 0x05, 0x87, 0x82, 0x00, 0x01, 0x63]

/-- The octets are accepted as a negation and refused as a presence test. -/
theorem paddedNegation_expected :
    ofBer paddedNegation = .ok (negation (leaf (.presence "c"))) ∧
      ofBerAs .negation paddedNegation = .ok (negation (leaf (.presence "c"))) ∧
      ofBerAs .presence paddedNegation = .error (.tagMismatch "PresenceFilter" 0x87 0xA2) ∧
      paddedNegation.head? = some 0xA2 := by
  have hdecode : ofBer paddedNegation = .ok (negation (leaf (.presence "c"))) := rfl
  have hsame := (expected_kind_tests_tag .negation paddedNegation).1 (negation (leaf (.presence "c")))
  obtain ⟨hother, hhead⟩ :=
    (expected_kind_tests_tag .presence paddedNegation).2.2.2 _ hdecode (by decide)
  exact ⟨hdecode, hsame.2 ⟨hdecode, rfl⟩, hother, hhead⟩

end Filter

end SearchFilter
