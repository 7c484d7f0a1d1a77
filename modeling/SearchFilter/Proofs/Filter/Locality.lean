import Mathlib.Tactic.Common
import SearchFilter.Proofs.Except
import SearchFilter.Proofs.Filter.Canonical

namespace SearchFilter

open Ber

namespace Decoding

/-- So many filters, one behind the other. -/
def filters : (count : Nat) → Read (List Filter)
  | 0 => return []
  | count + 1 => do
    let f ← filter
    return f :: (← filters count)

/-- The octets that a filter was read from are decoded as that filter when they stand alone. -/
theorem filter_sound {f : Filter} {r r' : Reader} (h : filter r = .ok f r') :
    ∃ x, Filter.ofBer x = .ok f ∧ r.Passes x r' := by
  obtain ⟨x, ⟨hx, hvalid, _⟩, hpasses⟩ := filterWithin_sound h
  exact ⟨x, Filter.ofBer_eq_ok_iff.2 ⟨hx, hvalid⟩, hpasses⟩

/-- Octets that are decoded as a filter when they stand alone are read as it from any place of a
buffer. -/
theorem filter_complete {f : Filter} {x : Octets} {r t : Reader} (hx : Filter.ofBer x = .ok f)
    (hpasses : r.Passes x t) : ∃ m, filter r = .ok f { t with length := m } := by
  obtain ⟨hencoded, hvalid⟩ := Filter.ofBer_eq_ok_iff.1 hx
  have hdepth := hencoded.depth_le
  have hample : f.depth ≤ ampleDepth r := by
    rw [ampleDepth, Reader.remaining, hpasses.rest_eq, List.length_append]
    omega
  exact filterWithin_complete ⟨hencoded, hvalid, hample⟩ hpasses

/-- Filters that were read one behind the other are each decoded from their own octets. -/
theorem filters_sound {n : Nat} {fs : List Filter} {r r' : Reader} (h : filters n r = .ok fs r') :
    fs.length = n ∧ ∃ x, Concat (fun f x => Filter.ofBer x = .ok f) fs x ∧ r.Passes x r' := by
  induction n generalizing fs r with
  | zero =>
    rw [filters, Read.pure_eq_ok_iff] at h
    obtain ⟨rfl, rfl⟩ := h
    exact ⟨rfl, [], .nil, .refl r⟩
  | succ n ih =>
    simp only [filters, Read.bind_eq_ok_iff, Read.pure_eq_ok_iff] at h
    obtain ⟨f, s, hfirst, fs, _, hrest, rfl, rfl⟩ := h
    obtain ⟨x, hx, hpasses⟩ := filter_sound hfirst
    obtain ⟨rfl, y, hy, hpasses'⟩ := ih hrest
    exact ⟨rfl, x ++ y, .cons hx hy, hpasses.trans hpasses'⟩

/-- Encodings one behind the other are read as their filters, as many as there are. -/
theorem filters_complete {fs : List Filter} {x : Octets} {r t : Reader}
    (hx : Concat (fun f x => Filter.ofBer x = .ok f) fs x) (hpasses : r.Passes x t) :
    ∃ m, filters fs.length r = .ok fs { t with length := m } := by
  induction hx generalizing r with
  | nil =>
    refine ⟨r.length, ?_⟩
    rw [List.length_nil, filters, Read.pure_eq_ok_iff]
    exact ⟨rfl, hpasses.eq_of_nil⟩
  | @cons f fs x y hf _ ih =>
    obtain ⟨s, hfirst, hrest, _⟩ := hpasses.split 0
    obtain ⟨m, hm⟩ := filter_complete hf hfirst
    obtain ⟨m', hm'⟩ := ih (hrest.withLength_left m)
    refine ⟨m', ?_⟩
    simp only [List.length_cons, filters, Read.bind_eq_ok_iff, Read.pure_eq_ok_iff]
    exact ⟨f, _, hm, fs, _, hm', rfl, rfl⟩

end Decoding

namespace Filter

open Decoding

/-- An encoding that starts another one is that one. -/
theorem eq_nil_of_ofBer_append {x q : Octets} {f g : Filter} (hx : ofBer x = .ok f)
    (hq : ofBer (x ++ q) = .ok g) : q = [] := by
  obtain ⟨hf, _⟩ := ofBer_eq_ok_iff.1 hx
  obtain ⟨hg, _⟩ := ofBer_eq_ok_iff.1 hq
  obtain ⟨_, heq⟩ := hg.unique (p := []) hf (List.append_nil _)
  simpa using heq

/-- If a filter has an encoding, what is written for it is one, too. -/
theorem ofBer_toBer_of_beq {x : Octets} {f g : Filter} (hx : ofBer x = .ok g)
    (hfg : (g == f) = true) : ofBer f.toBer = .ok f.withoutView := by
  obtain ⟨hencoded, hvalid⟩ := ofBer_eq_ok_iff.1 hx
  have hview : f.withoutView = g := by
    rw [← beq_iff.1 hfg, hencoded.withoutView_eq]
  have hwritten : f.toBer = g.toBer := by
    rw [← toBer_withoutView f, hview]
  rw [hwritten, hview]
  exact ofBer_eq_ok_iff.2 ⟨hencoded.encodedAs_toBer, hvalid⟩

theorem map_withoutView_beq (fs : List Filter) : (fs.map withoutView == fs) = true := by
  induction fs with
  | nil => rfl
  | cons f fs ih =>
    rw [List.map_cons, List.cons_beq_cons, ih, Bool.and_true]
    exact beq_iff.2 f.withoutView_withoutView

theorem exists_beq_of_mem {fs gs : List Filter} (h : (gs == fs) = true) {f : Filter} (hf : f ∈ fs) :
    ∃ g ∈ gs, (g == f) = true := by
  induction fs generalizing gs with
  | nil => cases hf
  | cons f' fs ih =>
    cases gs with
    | nil => cases h
    | cons g gs =>
      rw [List.cons_beq_cons, Bool.and_eq_true] at h
      cases hf with
      | head => exact ⟨g, List.mem_cons_self, h.1⟩
      | tail _ hf =>
        obtain ⟨g', hg', hbeq⟩ := ih h.2 hf
        exact ⟨g', List.mem_cons_of_mem _ hg', hbeq⟩

/-- Filters are read from what is written for them, one behind the other, where each of them is read
from what is written for it alone. -/
theorem exists_filters_toBer_iff (fs : List Filter) (p q : Octets) (n : Nat) :
    (∃ gs m, (gs == fs) = true ∧
        filters fs.length (.ofOctetsAt (p ++ fs.flatMap toBer ++ q) p.length n) =
          .ok gs (.ofOctetsAt (p ++ fs.flatMap toBer ++ q) (p.length + (fs.flatMap toBer).length) m)) ↔
      ∀ f ∈ fs, ∃ g, ofBer f.toBer = .ok g ∧ (g == f) = true := by
  constructor
  · rintro ⟨gs, _, hbeq, hread⟩ f hf
    obtain ⟨_, x, hx, _⟩ := filters_sound hread
    obtain ⟨g, hg, hfg⟩ := exists_beq_of_mem hbeq hf
    obtain ⟨y, hy, _⟩ := hx.exists_of_mem hg
    exact ⟨_, ofBer_toBer_of_beq hy hfg, beq_iff.2 f.withoutView_withoutView⟩
  · intro halone
    have hx : Concat (fun f x => ofBer x = .ok f) (fs.map withoutView) (fs.flatMap toBer) := by
      apply Concat.map_flatMap
      intro f hf
      obtain ⟨g, hg, hfg⟩ := halone f hf
      exact ofBer_toBer_of_beq hg hfg
    obtain ⟨m, hm⟩ := filters_complete hx (Reader.Passes.between p _ q n 0)
    rw [List.length_map] at hm
    exact ⟨_, m, map_withoutView_beq fs, hm⟩

/-- A filter is read from its own octets, wherever they stand in a buffer, and from no others. So no
encoding starts another one, and encodings one behind the other are read as the filters they encode. -/
theorem decoding_local_and_prefix_free :
    (∀ (p x q : Octets) (n : Nat) (f : Filter), ofBer x = .ok f →
        ∃ m, Decoding.filter (.ofOctetsAt (p ++ x ++ q) p.length n) =
          .ok f (.ofOctetsAt (p ++ x ++ q) (p.length + x.length) m)) ∧
      (∀ (data : Octets) (o n : Nat) (f : Filter) (r : Reader),
        Decoding.filter (.ofOctetsAt data o n) = .ok f r →
          r = .ofOctetsAt data r.offset r.length ∧ o ≤ r.offset ∧ r.offset ≤ data.length ∧
            ofBer ((data.drop o).take (r.offset - o)) = .ok f) ∧
      (∀ (x : Octets) (f : Filter), ofBer x = .ok f →
        (∀ y, y <+: x → y ≠ x → ∃ e, ofBer y = .error e) ∧
          ∀ q, q ≠ [] → ∃ e, ofBer (x ++ q) = .error e) ∧
      (∀ (fs : List Filter) (p x q : Octets) (n : Nat), Concat (fun f x => ofBer x = .ok f) fs x →
        ∃ m, filters fs.length (.ofOctetsAt (p ++ x ++ q) p.length n) =
          .ok fs (.ofOctetsAt (p ++ x ++ q) (p.length + x.length) m)) ∧
      ∀ (fs : List Filter) (p q : Octets) (n : Nat),
        (∃ gs m, (gs == fs) = true ∧
            filters fs.length (.ofOctetsAt (p ++ fs.flatMap toBer ++ q) p.length n) =
              .ok gs (.ofOctetsAt (p ++ fs.flatMap toBer ++ q)
                (p.length + (fs.flatMap toBer).length) m)) ↔
          ∀ f ∈ fs, ∃ g, ofBer f.toBer = .ok g ∧ (g == f) = true := by
  refine ⟨?_, ?_, ?_, ?_, exists_filters_toBer_iff⟩
  · intro p x q n f hx
    exact filter_complete hx (Reader.Passes.between p x q n 0)
  · intro data o n f r h
    obtain ⟨x, hx, hpasses⟩ := filter_sound h
    obtain ⟨hr, hle, hend, rfl⟩ := hpasses.of_ofOctetsAt (ofBer_eq_ok_iff.1 hx).1.ne_nil
    exact ⟨hr, hle, hend, hx⟩
  · intro x f hx
    refine ⟨?_, ?_⟩
    · rintro y ⟨q, rfl⟩ hne
      rw [Except.exists_error_iff]
      intro g hy
      obtain rfl := eq_nil_of_ofBer_append hy hx
      exact hne (List.append_nil y).symm
    · intro q hne
      rw [Except.exists_error_iff]
      intro g hq
      exact hne (eq_nil_of_ofBer_append hx hq)
  · intro fs p x q n hx
    exact filters_complete hx (Reader.Passes.between p x q n 0)

/-- Between other octets and behind itself the encoding is read as when it stands alone, where an
octet behind it is refused. -/
theorem padded_in_buffer :
    ofBer padded = .ok ofPadded ∧
      (∃ m, Decoding.filter (.ofOctetsAt ([0xFF] ++ padded ++ [0x87, 0x00]) 1 7) =
        .ok ofPadded (.ofOctetsAt ([0xFF] ++ padded ++ [0x87, 0x00]) 17 m)) ∧
      (∃ e, ofBer (padded ++ [0x00]) = .error e) ∧
      ∃ m, filters 2 (.ofOctetsAt ([] ++ (padded ++ (padded ++ [])) ++ []) 0 0) =
        .ok [ofPadded, ofPadded] (.ofOctetsAt ([] ++ (padded ++ (padded ++ [])) ++ []) 32 m) := by
  have hpadded : ofBer padded = .ok ofPadded := by cbv
  obtain ⟨hmiddle, _, hends, hlists, _⟩ := decoding_local_and_prefix_free
  refine ⟨hpadded, ?_, ?_, ?_⟩
  · exact hmiddle [0xFF] padded [0x87, 0x00] 7 ofPadded hpadded
  · exact (hends padded ofPadded hpadded).2 [0x00] (by decide)
  · exact hlists [ofPadded, ofPadded] [] _ [] 0 (.cons hpadded (.cons hpadded .nil))

end Filter

end SearchFilter
