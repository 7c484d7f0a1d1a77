import Mathlib.Tactic.Common
import SearchFilter.Proofs.Filter.LeafDecoding

namespace SearchFilter

open Ber

namespace Decoding

/-- What a decoder of filters of at most `d` levels may give, and the octets it passes. -/
def Accepts (d : Nat) (f : Filter) (x : Octets) : Prop :=
  f.EncodedAs x ∧ f.Valid ∧ f.depth ≤ d

theorem leaf_eq_ok_iff {read : Read Assertion} {f : Filter} {r r' : Reader} :
    (do return Filter.leaf (← read)) r = .ok f r' ↔ ∃ a, read r = .ok a r' ∧ f = .leaf a := by
  simp only [Read.bind_eq_ok_iff, Read.pure_eq_ok_iff]
  constructor
  · rintro ⟨a, _, ha, rfl, rfl⟩
    exact ⟨a, ha, rfl⟩
  · rintro ⟨a, ha, rfl⟩
    exact ⟨a, r', ha, rfl, rfl⟩

section
variable {one : Read Filter} {d : Nat}

/-- A content that was read is one of the filter that came out, which has the kind of the element
and one level more than what is in it. -/
theorem content_sound (hone : ∀ f r r', one r = .ok f r' → ∃ x, Accepts d f x ∧ r.Passes x r')
    {kind : Kind} {stop : Nat} {f : Filter} {r r' : Reader} (h : content one kind stop r = .ok f r') :
    ∃ c, f.ContentAs c ∧ f.Valid ∧ f.depth ≤ d + 1 ∧ f.kind = kind ∧ r.Passes c r' := by
  have hleaf {a : Assertion} {c : Octets} (hc : a.EncodedAs c) (hvalid : a.Valid)
      (hpasses : r.Passes c r') : ∃ c, (Filter.leaf a).ContentAs c ∧ (Filter.leaf a).Valid ∧
        (Filter.leaf a).depth ≤ d + 1 ∧ (Filter.leaf a).kind = a.kind ∧ r.Passes c r' :=
    ⟨c, .leaf hc, Filter.valid_leaf.2 hvalid, by simp [Filter.depth], rfl, hpasses⟩
  cases kind with
  | empty =>
    simp only [content, Read.bind_eq_ok_iff, Read.null_eq_ok_iff, Read.pure_eq_ok_iff] at h
    obtain ⟨_, _, ⟨x, hx, hpasses, _⟩, rfl, rfl⟩ := h
    exact hleaf (.empty hx) trivial hpasses
  | junction c =>
    simp only [content, Read.bind_eq_ok_iff, Read.offset_eq_ok_iff, Read.pure_eq_ok_iff] at h
    obtain ⟨_, _, ⟨rfl, rfl⟩, fs, _, hbefore, rfl, rfl⟩ := h
    obtain ⟨x, hx, hpasses⟩ := Read.before_sound hone hbefore
    have hall : ∀ f ∈ fs, f.Valid ∧ f.depth ≤ d := by
      intro f hf
      obtain ⟨_, ⟨_, haccepts⟩, _⟩ := hx.exists_of_mem hf
      exact haccepts
    refine ⟨x, .junction (hx.imp fun _ _ _ h => h.1),
      Filter.valid_junction.2 fun f hf => (hall f hf).1, ?_, rfl, hpasses⟩
    rw [Filter.depth, Nat.add_le_add_iff_right, Filter.depthAll_le_iff]
    exact fun f hf => (hall f hf).2
  | negation =>
    simp only [content, Read.bind_eq_ok_iff, Read.offset_eq_ok_iff, Read.ite_eq_ok_iff,
      Read.pure_eq_ok_iff, Read.fail_ne_ok, and_false, or_false] at h
    obtain ⟨_, _, ⟨rfl, rfl⟩, _, f, _, hf, rfl, rfl⟩ := h
    obtain ⟨x, ⟨hx, hvalid, hdepth⟩, hpasses⟩ := hone _ _ _ hf
    refine ⟨x, .negation hx, Filter.valid_negation.2 hvalid, ?_, rfl, hpasses⟩
    rw [Filter.depth]
    omega
  | comparison op =>
    rw [content, leaf_eq_ok_iff] at h
    obtain ⟨a, ha, rfl⟩ := h
    obtain ⟨name, value, x, y, rfl, hx, hy, hpasses, _⟩ := comparison_eq_ok_iff.1 ha
    exact hleaf (.comparison hx hy) trivial hpasses
  | presence =>
    rw [content, leaf_eq_ok_iff] at h
    obtain ⟨a, ha, rfl⟩ := h
    obtain ⟨name, rfl, hname, _, hpasses, _⟩ := presence_eq_ok_iff.1 ha
    exact hleaf (.presence name) hname hpasses
  | substring =>
    rw [content, leaf_eq_ok_iff] at h
    obtain ⟨a, ha, rfl⟩ := h
    obtain ⟨name, s, x, rfl, hx, hpasses⟩ := substring_sound ha
    exact hleaf hx trivial hpasses
  | extensible =>
    rw [content, leaf_eq_ok_iff] at h
    obtain ⟨a, ha, rfl⟩ := h
    obtain ⟨e, x, rfl, hx, hvalid, hpasses⟩ := extensible_sound ha
    exact hleaf hx hvalid hpasses

/-- A reader that stands before the content of a filter reads that filter, if it can be asked
for. -/
theorem content_complete
    (hone : ∀ f x r t, Accepts d f x → r.Passes x t → ∃ m, one r = .ok f { t with length := m })
    {f : Filter} {c : Octets} {r t : Reader} (hc : f.ContentAs c) (hvalid : f.Valid)
    (hdepth : f.depth ≤ d + 1) (hlength : r.length = c.length) (hpasses : r.Passes c t) :
    ∃ m, content one f.kind t.offset r = .ok f { t with length := m } := by
  have hoffset := hpasses.offset_eq
  cases hc with
  | @leaf a _ hc =>
    rw [Filter.valid_leaf] at hvalid
    change ∃ m, content one a.kind t.offset r = .ok (.leaf a) { t with length := m }
    cases a with
    | empty =>
      cases hc with
      | empty hx =>
        refine ⟨0, ?_⟩
        simp only [Assertion.kind, content, Read.bind_eq_ok_iff, Read.null_eq_ok_iff,
          Read.pure_eq_ok_iff]
        exact ⟨(), _, ⟨c, hx, hpasses.withLength 0, rfl⟩, trivial, rfl⟩
    | comparison op name value =>
      cases hc with
      | comparison hx hy =>
        refine ⟨value.length, ?_⟩
        rw [Assertion.kind, content, leaf_eq_ok_iff]
        exact ⟨_, comparison_eq_ok_iff.2
          ⟨name, value, _, _, rfl, hx, hy, hpasses.withLength _, rfl⟩, rfl⟩
    | presence name =>
      cases hc
      refine ⟨r.length, ?_⟩
      rw [Assertion.kind, content, leaf_eq_ok_iff]
      exact ⟨_, presence_eq_ok_iff.2
        ⟨name, rfl, hvalid, hlength.symm, hpasses.withLength _, rfl⟩, rfl⟩
    | substring name s =>
      obtain ⟨m, hm⟩ := substring_complete hc hpasses
      exact ⟨m, leaf_eq_ok_iff.2 ⟨_, hm, rfl⟩⟩
    | extensible e =>
      obtain ⟨m, hm⟩ := extensible_complete hc hvalid hpasses
      exact ⟨m, leaf_eq_ok_iff.2 ⟨_, hm, rfl⟩⟩
  | @negation f _ hc =>
    rw [Filter.depth] at hdepth
    have hpos := List.length_pos_iff.2 hc.ne_nil
    obtain ⟨m, hm⟩ := hone f c r t ⟨hc, Filter.valid_negation.1 hvalid, by omega⟩ hpasses
    refine ⟨m, ?_⟩
    simp only [Filter.kind, content, Read.bind_eq_ok_iff, Read.offset_eq_ok_iff, Read.ite_eq_ok_iff,
      Read.pure_eq_ok_iff]
    exact ⟨_, r, ⟨rfl, rfl⟩, .inl ⟨by omega, f, _, hm, rfl, rfl⟩⟩
  | @junction k fs _ hc =>
    rw [Filter.depth, Nat.add_le_add_iff_right, Filter.depthAll_le_iff] at hdepth
    rw [Filter.valid_junction] at hvalid
    have haccepts : Concat (Accepts d) fs c := hc.imp fun f hf _ hx => ⟨hx, hvalid f hf, hdepth f hf⟩
    obtain ⟨m, hm⟩ := Read.before_complete (n := t.offset - r.offset) hone
      (fun _ _ h => h.1.ne_nil) haccepts hpasses rfl (by omega)
    refine ⟨m, ?_⟩
    simp only [Filter.kind, content, Read.bind_eq_ok_iff, Read.offset_eq_ok_iff, Read.pure_eq_ok_iff]
    exact ⟨_, r, ⟨rfl, rfl⟩, fs, _, hm, rfl, rfl⟩

/-- An element of some kind ends where its content does. -/
theorem body_sound (hone : ∀ f r r', one r = .ok f r' → ∃ x, Accepts d f x ∧ r.Passes x r')
    {kind : Kind} {f : Filter} {r r' : Reader} (h : body one kind r = .ok f r') :
    ∃ c, f.ContentAs c ∧ f.Valid ∧ f.depth ≤ d + 1 ∧ f.kind = kind ∧ r.length = c.length ∧
      r.Passes c r' := by
  simp only [body, Read.bind_eq_ok_iff, Read.offset_eq_ok_iff, Read.lastLength_eq_ok_iff,
    Read.ite_eq_ok_iff, Read.pure_eq_ok_iff, Read.fail_ne_ok, and_false, or_false] at h
  obtain ⟨_, _, ⟨rfl, rfl⟩, _, _, ⟨rfl, rfl⟩, f, _, hcontent, _, _, ⟨rfl, rfl⟩, hstop, rfl, rfl⟩ := h
  obtain ⟨c, hc, hvalid, hdepth, hkind, hpasses⟩ := content_sound hone hcontent
  have hoffset := hpasses.offset_eq
  exact ⟨c, hc, hvalid, hdepth, hkind, by omega, hpasses⟩

/-- A reader that stands behind the header of an element reads the filter that the element
encodes. -/
theorem body_complete
    (hone : ∀ f x r t, Accepts d f x → r.Passes x t → ∃ m, one r = .ok f { t with length := m })
    {f : Filter} {c : Octets} {r t : Reader} (hc : f.ContentAs c) (hvalid : f.Valid)
    (hdepth : f.depth ≤ d + 1) (hlength : r.length = c.length) (hpasses : r.Passes c t) :
    ∃ m, body one f.kind r = .ok f { t with length := m } := by
  obtain ⟨m, hm⟩ := content_complete hone hc hvalid hdepth hlength hpasses
  have hoffset : t.offset = r.offset + r.length := by
    rw [hlength]
    exact hpasses.offset_eq
  refine ⟨m, ?_⟩
  simp only [body, Read.bind_eq_ok_iff, Read.offset_eq_ok_iff, Read.lastLength_eq_ok_iff,
    Read.ite_eq_ok_iff, Read.pure_eq_ok_iff, Read.fail_ne_ok, and_false, or_false]
  exact ⟨_, r, ⟨rfl, rfl⟩, _, r, ⟨rfl, rfl⟩, f, { t with length := m }, hoffset ▸ hm, _, _, ⟨rfl, rfl⟩,
    hoffset, rfl, rfl⟩

end

/-- A filter that was read under a limit keeps to it, and the octets that were passed are one of its
encodings. -/
theorem filterWithin_sound {d : Nat} {f : Filter} {r r' : Reader}
    (h : filterWithin d r = .ok f r') : ∃ x, Accepts d f x ∧ r.Passes x r' := by
  induction d generalizing f r r' with
  | zero =>
    simp only [filterWithin, Read.bind_eq_ok_iff, Read.fail_ne_ok, and_false, exists_false] at h
  | succ d ih =>
    rw [filterWithin, Read.bind_eq_ok_iff] at h
    obtain ⟨tag, r₁, hheader, h⟩ := h
    cases hkind : Kind.ofTag? tag with
    | none =>
      rw [hkind] at h
      exact absurd h Read.fail_ne_ok
    | some kind =>
      rw [hkind] at h
      obtain ⟨c, hc, hvalid, hdepth, rfl, hlength, hpasses⟩ := body_sound (fun _ _ _ h => ih h) h
      -- The length in the header was only compared with where the content ended.
      obtain ⟨l, hl, hheader, _⟩ := Read.header_eq_ok_iff.1 hheader
      rw [hlength] at hl
      obtain rfl := Kind.tag_of_ofTag? hkind
      exact ⟨_, ⟨Filter.encodedAs_iff.2 ⟨c, hc, l, hl, rfl⟩, hvalid, hdepth⟩, hheader.trans hpasses⟩

/-- A reader that stands before an encoding of a filter reads it under every limit that it keeps
to. -/
theorem filterWithin_complete {d : Nat} {f : Filter} {x : Octets} {r t : Reader}
    (hx : Accepts d f x) (hpasses : r.Passes x t) :
    ∃ m, filterWithin d r = .ok f { t with length := m } := by
  induction d generalizing f x r t with
  | zero =>
    have hpos := f.depth_pos
    have hdepth := hx.2.2
    omega
  | succ d ih =>
    obtain ⟨henc, hvalid, hdepth⟩ := hx
    obtain ⟨c, hc, l, hl, rfl⟩ := Filter.encodedAs_iff.1 henc
    obtain ⟨r₁, hheader, hcontent, hlength⟩ := hpasses.split c.length
    obtain ⟨m, hm⟩ := body_complete (fun _ _ _ _ hx hpasses => ih hx hpasses) hc hvalid hdepth hlength
      hcontent
    refine ⟨m, ?_⟩
    rw [filterWithin, Read.bind_eq_ok_iff]
    refine ⟨f.tag, r₁, Read.header_eq_ok_iff.2 ⟨l, hlength ▸ hl, hheader, ?_⟩, ?_⟩
    · rw [hlength, hcontent.rest_eq, List.length_append]
      omega
    · rw [Filter.tag, Kind.ofTag?_tag]
      exact hm

theorem whole_eq_ok_iff {read : Read Filter} {b : Octets} {f : Filter} :
    whole read b = .ok f ↔ ∃ r', read (.ofOctets b) = .ok f r' ∧ r'.rest = [] := by
  have hcomplete (s : Reader) :
      complete read (.ofOctets b) = .ok f s ↔ read (.ofOctets b) = .ok f s ∧ s.rest = [] := by
    simp only [complete, finish, Read.bind_eq_ok_iff, Read.get_eq_ok_iff, Read.ite_eq_ok_iff,
      Read.pure_eq_ok_iff, Read.fail_ne_ok, and_false, or_false, List.isEmpty_iff]
    constructor
    · rintro ⟨g, u, hread, _, _, ⟨_, _, ⟨rfl, rfl⟩, hrest, _, rfl⟩, rfl, rfl⟩
      exact ⟨hread, hrest⟩
    · rintro ⟨hread, hrest⟩
      exact ⟨f, s, hread, (), s, ⟨s, s, ⟨rfl, rfl⟩, hrest, trivial, rfl⟩, rfl, rfl⟩
  simp only [← hcomplete]
  unfold whole
  cases complete read (.ofOctets b) <;> simp

theorem whole_eq_error {read : Read Filter} {b : Octets} {e : FilterError} {s : Reader}
    (h : read (.ofOctets b) = .error e s) : whole read b = .error e := by
  have hcomplete : complete read (.ofOctets b) = .error e s :=
    Read.bind_eq_error_iff.2 (.inl h)
  rw [whole, hcomplete]

end Decoding

namespace Filter

open Decoding

/-- Under a limit, what the decoder accepts are the encodings of the filters that keep to it. -/
theorem ofBerWithin_eq_ok_iff {d : Nat} {b : Octets} {f : Filter} :
    ofBerWithin d b = .ok f ↔ f.EncodedAs b ∧ f.Valid ∧ f.depth ≤ d := by
  rw [ofBerWithin, whole_eq_ok_iff]
  constructor
  · rintro ⟨r', hread, hrest⟩
    obtain ⟨x, hx, hpasses⟩ := filterWithin_sound hread
    have hb : b = x ++ r'.rest := hpasses.rest_eq
    rw [hrest, List.append_nil] at hb
    rwa [hb]
  · intro hx
    obtain ⟨m, hm⟩ := filterWithin_complete hx (Reader.Passes.ofOctets b)
    exact ⟨_, hm, rfl⟩

/-- Without a limit nothing is refused for its depth, since each level takes some octets. -/
theorem ofBer_eq_ok_iff {b : Octets} {f : Filter} :
    ofBer b = .ok f ↔ f.EncodedAs b ∧ f.Valid := by
  have hlimit : ofBer b = ofBerWithin (b.length + 1) b := rfl
  rw [hlimit, ofBerWithin_eq_ok_iff]
  constructor
  · rintro ⟨hx, hvalid, _⟩
    exact ⟨hx, hvalid⟩
  · rintro ⟨hx, hvalid⟩
    have hdepth := hx.depth_le
    exact ⟨hx, hvalid, by omega⟩

end Filter

end SearchFilter
