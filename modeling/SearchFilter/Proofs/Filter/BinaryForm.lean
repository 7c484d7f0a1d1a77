import Mathlib.Tactic.Common
import SearchFilter.Proofs.Except
import SearchFilter.Proofs.Filter.Decoding
import SearchFilter.Proofs.Filter.Writing

namespace SearchFilter.Filter

open Ber

/-- What is written for a filter is accepted as that filter without its views, or not at all. -/
theorem ofBer_toBer_eq_ok_iff {f g : Filter} (hsize : f.toBer.length < 2 ^ 32) :
    ofBer f.toBer = .ok g ↔ g = f.withoutView ∧ f.Valid := by
  rw [ofBer_eq_ok_iff]
  have hwritten := encodedAs_toBer hsize
  constructor
  · rintro ⟨hg, hvalid⟩
    obtain ⟨rfl, _⟩ := hg.unique (p := []) (q := []) hwritten rfl
    exact ⟨rfl, valid_withoutView.1 hvalid⟩
  · rintro ⟨rfl, hvalid⟩
    exact ⟨hwritten, valid_withoutView.2 hvalid⟩

/-- The octets that are accepted as a filter are its encodings, and all other octets are refused. -/
theorem ofBer_accepts_encodings (b : Octets) :
    (∀ f : Filter, ofBer b = .ok f ↔ f.EncodedAs b ∧ f.Valid) ∧
      ((∃ e, ofBer b = .error e) ↔ ∀ f : Filter, f.EncodedAs b → ¬f.Valid) := by
  refine ⟨fun f => ofBer_eq_ok_iff, ?_⟩
  rw [Except.exists_error_iff]
  refine forall_congr' fun f => ?_
  rw [ne_eq, ofBer_eq_ok_iff, not_and]

/-- A filter comes back from what a writer makes of it, whatever its shape, exactly where each leaf
makes an assertion that can be asked for. What is written for any other filter is refused. -/
theorem ofBer_write_iff_valid (f : Filter) (hsize : (Writer.new.filter f).buffer.length < 2 ^ 32) :
    (Writer.new.filter f).buffer = f.toBer ∧
      ((∃ g, ofBer (Writer.new.filter f).buffer = .ok g ∧ (g == f) = true) ↔ f.Valid) ∧
      (¬f.Valid → ∃ e, ofBer (Writer.new.filter f).buffer = .error e) := by
  have hwritten : (Writer.new.filter f).buffer = f.toBer := by
    rw [Writer.filter_eq]
    exact List.nil_append _
  rw [hwritten] at hsize ⊢
  refine ⟨rfl, ⟨?_, ?_⟩, ?_⟩
  · rintro ⟨g, hg, _⟩
    exact ((ofBer_toBer_eq_ok_iff hsize).1 hg).2
  · intro hvalid
    exact ⟨_, (ofBer_toBer_eq_ok_iff hsize).2 ⟨rfl, hvalid⟩, beq_iff.2 f.withoutView_withoutView⟩
  · intro hinvalid
    rw [Except.exists_error_iff]
    intro g hg
    exact hinvalid ((ofBer_toBer_eq_ok_iff hsize).1 hg).2

/-- A filter that no text stands for: it has junctions without clauses and an unnamed attribute. It
also has a view, which is not written. -/
def withoutText : Filter :=
  negation (junction .and [
    leaf (.extensible { matchType := none, rule := some "2.5.13-x", value := [0x00, 0x2A],
                        dnAttributes := true,
                        substrings := some { initial := some [0x00], any := [], final := none } }),
    leaf (.substring "" { initial := some [], any := [], final := none }),
    junction .or [], leaf .empty])

/-- A filter that no text stands for comes back from its octets all the same, but for the view. -/
theorem ofBer_write_withoutText :
    (Writer.new.filter withoutText).buffer.length < 2 ^ 32 ∧
      ∃ g, ofBer (Writer.new.filter withoutText).buffer = .ok g ∧ (g == withoutText) = true := by
  have hsize : (Writer.new.filter withoutText).buffer.length < 2 ^ 32 := by decide
  exact ⟨hsize, (ofBer_write_iff_valid withoutText hsize).2.1.2 (by decide)⟩

end SearchFilter.Filter
