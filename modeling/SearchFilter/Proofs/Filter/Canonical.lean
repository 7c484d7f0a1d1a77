import Mathlib
import SearchFilter.Proofs.Ber.Minimal
import SearchFilter.Proofs.Ber.Occurrence
import SearchFilter.Proofs.Filter.Decoding

namespace SearchFilter

open Ber

/-- Every truth value among the fields of an extensible assertion is the octet `0xFF`. -/
def FlagsSet (fields : Octets) : Prop :=
  Everywhere (fun t _ c => t = Tags.field.dnAttributes → c = [0xFF]) fields

/-- Every length is in a form that no other form is shorter than, and every truth value is the octet
`0xFF`. -/
structure IsCanonical (b : Octets) : Prop where
  lengths : ∀ t l c, Occurs t l c b → IsMinimal c.length l
  flags : ∀ l c, Occurs Kind.extensible.tag l c b → FlagsSet c

/-- What is canonical about one element, apart from what occurs in it. -/
def IsCanonicalElement (t : UInt8) (l c : Octets) : Prop :=
  IsMinimal c.length l ∧ (t = Kind.extensible.tag → FlagsSet c)

/-- The content of an element with this tag is canonical. -/
def IsCanonicalContent (t : UInt8) (c : Octets) : Prop :=
  (t = Kind.extensible.tag → FlagsSet c) ∧ (IsConstructed t → Everywhere IsCanonicalElement c)

/-- Octets are canonical where each element in them is, apart from what occurs in it. -/
theorem isCanonical_iff_everywhere {b : Octets} : IsCanonical b ↔ Everywhere IsCanonicalElement b := by
  constructor
  · intro h t l c hoccurs
    refine ⟨h.lengths t l c hoccurs, ?_⟩
    rintro rfl
    exact h.flags l c hoccurs
  · intro h
    refine ⟨?_, ?_⟩
    · intro t l c hoccurs
      exact (h t l c hoccurs).1
    · intro l c hoccurs
      exact (h _ l c hoccurs).2 rfl

/-- The content of an element that is no extensible assertion is canonical where its elements are. -/
theorem isCanonicalContent_iff_everywhere {t : UInt8} {c : Octets} (hne : t ≠ Kind.extensible.tag)
    (hconstructed : IsConstructed t) :
    IsCanonicalContent t c ↔ Everywhere IsCanonicalElement c := by
  simp [IsCanonicalContent, hne, hconstructed]

/-- The content of a field is canonical. -/
theorem isCanonicalContent_of_not {t : UInt8} {c : Octets} (hprimitive : ¬IsConstructed t) :
    IsCanonicalContent t c := by
  refine ⟨?_, fun h => absurd h hprimitive⟩
  rintro rfl
  exact absurd (by decide) hprimitive

/-- If there is one canonical content, then there is one canonical element. -/
theorem everywhere_iff_eq_element {t : UInt8} {c d x : Octets} (hx : IsElement t c x)
    (hle : d.length ≤ c.length) (hcontent : IsCanonicalContent t c ↔ c = d) :
    Everywhere IsCanonicalElement x ↔ x = element t d := by
  have hwritten := hx.isElement_element hle
  obtain ⟨l, hl, rfl⟩ := hx
  have hself : Everywhere IsCanonicalElement (t :: l ++ c) ↔
      l = encodeLength c.length ∧ c = d := by
    rw [everywhere_element hl, ← hcontent, ← isMinimal_iff hl]
    exact and_assoc
  rw [hself]
  constructor
  · rintro ⟨rfl, rfl⟩
    rfl
  · intro heq
    have hbehind : t :: l ++ c ++ [] = element t d ++ [] := congrArg (· ++ []) heq
    obtain ⟨_, rfl, _⟩ := IsElement.unique ⟨l, hl, rfl⟩ hwritten hbehind
    simpa [element] using heq

/-- A field is canonical in the one form that is written for it. -/
theorem everywhere_field_iff {t : UInt8} {c x : Octets} (hx : IsElement t c x)
    (hprimitive : ¬IsConstructed t) : Everywhere IsCanonicalElement x ↔ x = element t c := by
  apply everywhere_iff_eq_element hx (Nat.le_refl _)
  exact iff_of_true (isCanonicalContent_of_not hprimitive) rfl

/-- Fields are canonical just as they are written. -/
theorem everywhere_fields_iff {fields : List (UInt8 × Octets)} {c : Octets}
    (hc : Concat IsTagged fields c) (hprimitive : ∀ f ∈ fields, ¬IsConstructed f.1) :
    Everywhere IsCanonicalElement c ↔ c = fields.flatMap fun p => element p.1 p.2 := by
  apply everywhere_concat_iff hc
  · intro f _ y hy
    exact ⟨_, _, hy⟩
  · intro f _ y hy
    exact ⟨_, _, IsElement.isElement_element hy (Nat.le_refl _)⟩
  · intro f hf y hy
    exact everywhere_field_iff hy (hprimitive f hf)

theorem length_fields_le {fields : List (UInt8 × Octets)} {c : Octets}
    (hc : Concat IsTagged fields c) :
    (fields.flatMap fun p => element p.1 p.2).length ≤ c.length := by
  apply hc.length_flatMap_le
  intro f _ y hy
  exact IsElement.length_element_le hy (Nat.le_refl _)

theorem Substrings.primitive (s : Substrings) : ∀ f ∈ s.tagged, ¬IsConstructed f.1 := by
  intro f hf
  have htag : f.1 = Tags.fragment.initial ∨ f.1 = Tags.fragment.any ∨ f.1 = Tags.fragment.final := by
    simp only [tagged, List.mem_append, List.mem_map] at hf
    rcases hf with (⟨_, _, rfl⟩ | ⟨_, _, rfl⟩) | ⟨_, _, rfl⟩ <;> simp
  rcases htag with htag | htag | htag <;> rw [htag] <;> decide

/-- Fragments are written in no more octets than they were read from. -/
theorem Substrings.length_encode_le {s : Substrings} {c : Octets} (hc : Concat IsTagged s.tagged c) :
    s.encode.length ≤ c.length := by
  rw [encode_eq]
  exact length_fields_le hc

namespace Extensible

variable {e : Extensible} {flag : List (UInt8 × Octets)} {c : Octets}

theorem tag_eq {f : UInt8 × Octets} (hf : f ∈ e.tagged) :
    f.1 = Tags.field.rule ∨ f.1 = Tags.field.matchType ∨ f.1 = Tags.field.value := by
  simp only [tagged, List.mem_append, List.mem_map, List.mem_singleton] at hf
  rcases hf with (⟨_, _, rfl⟩ | ⟨_, _, rfl⟩) | rfl <;> simp

theorem primitive (hflag : FlagField e.dnAttributes flag) :
    ∀ f ∈ e.tagged ++ flag, ¬IsConstructed f.1 := by
  have hfront : ∀ f ∈ e.tagged, ¬IsConstructed f.1 := by
    intro f hf
    rcases tag_eq hf with htag | htag | htag <;> rw [htag] <;> decide
  have hbehind : ¬IsConstructed Tags.field.dnAttributes := by decide
  rw [List.forall_mem_append]
  refine ⟨hfront, ?_⟩
  generalize e.dnAttributes = v at hflag
  cases hflag with
  | absent => simp
  | present b => simpa using hbehind

/-- The truth value is the usual one where it is written as a writer does. -/
theorem flags_iff (hflag : FlagField e.dnAttributes flag) :
    (∀ f ∈ e.tagged ++ flag, f.1 = Tags.field.dnAttributes → f.2 = [0xFF]) ↔
      flag = e.writtenFlag := by
  have hfront : ∀ f ∈ e.tagged, f.1 ≠ Tags.field.dnAttributes := by
    intro f hf
    rcases tag_eq hf with htag | htag | htag <;> rw [htag] <;> decide
  have hbehind : (∀ f ∈ e.tagged ++ flag, f.1 = Tags.field.dnAttributes → f.2 = [0xFF]) ↔
      ∀ f ∈ flag, f.1 = Tags.field.dnAttributes → f.2 = [0xFF] := by
    rw [List.forall_mem_append]
    exact and_iff_right fun f hf h => absurd h (hfront f hf)
  rw [hbehind, writtenFlag]
  generalize e.dnAttributes = v at hflag ⊢
  cases hflag with
  | absent => simp
  | present b =>
    by_cases hb : b = 0
    · subst hb
      simp
    · simp [hb, Writer.booleanOctet]

/-- The fields of an extensible assertion are written in no more octets, and a truth value that is
false in none. -/
theorem length_encode_le (hflag : FlagField e.dnAttributes flag)
    (hc : Concat IsTagged (e.tagged ++ flag) c) : e.encode.length ≤ c.length := by
  have hle := length_fields_le hc
  have hwritten : (e.writtenFlag.flatMap fun p => element p.1 p.2).length ≤
      (flag.flatMap fun p => element p.1 p.2).length := by
    rw [writtenFlag]
    generalize e.dnAttributes = v at hflag ⊢
    cases hflag with
    | absent => simp
    | present b => split_ifs <;> simp [element, Writer.booleanOctet]
  rw [encode_eq]
  simp only [List.flatMap_append, List.length_append] at hle ⊢
  omega

/-- The content of an extensible assertion is canonical just as it is written. -/
theorem isCanonicalContent_iff_eq (hflag : FlagField e.dnAttributes flag)
    (hc : Concat IsTagged (e.tagged ++ flag) c) (hsize : c.length < 2 ^ 32) :
    IsCanonicalContent Kind.extensible.tag c ↔ c = e.encode := by
  have hflags : FlagsSet c ↔ flag = e.writtenFlag := by
    rw [FlagsSet, ← flags_iff hflag, everywhere_tagged_iff hc (primitive hflag)]
  have hcontent : IsCanonicalContent Kind.extensible.tag c ↔
      FlagsSet c ∧ Everywhere IsCanonicalElement c := by
    have hconstructed : IsConstructed Kind.extensible.tag := by decide
    simp [IsCanonicalContent, hconstructed]
  rw [hcontent, hflags, everywhere_fields_iff hc (primitive hflag)]
  constructor
  · rintro ⟨rfl, heq⟩
    rw [heq, encode_eq]
  · intro heq
    have hwritten : Concat IsTagged (e.tagged ++ e.writtenFlag) c := by
      rw [heq, encode_eq] at hsize
      rw [heq, encode_eq]
      exact concat_tagged hsize
    have hflag : flag = e.writtenFlag := List.append_cancel_left (unique_tagged hc hwritten)
    refine ⟨hflag, ?_⟩
    rw [hflag, ← encode_eq]
    exact heq

end Extensible

namespace Assertion.EncodedAs

variable {a : Assertion} {c : Octets}

/-- An assertion is written in no more octets than any other encoding of it. -/
theorem length_encode_le (hc : a.EncodedAs c) : a.encode.length ≤ c.length := by
  cases hc with
  | empty hx => exact hx.length_element_le (Nat.le_refl _)
  | comparison hx hy =>
    have hname := hx.length_element_le (Nat.le_refl _)
    have hvalue := hy.length_element_le (Nat.le_refl _)
    simp only [encode, List.length_append]
    omega
  | presence name => exact Nat.le_refl _
  | @substring name s x c y hx hc hy =>
    have hname := hx.length_element_le (Nat.le_refl _)
    have hsequence := hy.length_element_le (Substrings.length_encode_le hc)
    simp only [encode, List.length_append]
    omega
  | extensible _ hflag hc => exact Extensible.length_encode_le hflag hc

/-- Among the encodings of an assertion, the one that is written is the canonical one. -/
theorem isCanonicalContent_iff (hc : a.EncodedAs c) (hsize : c.length < 2 ^ 32) :
    IsCanonicalContent a.kind.tag c ↔ c = a.encode := by
  have hprimitive : ¬IsConstructed octetStringTag := by decide
  cases hc with
  | empty hx =>
    rw [isCanonicalContent_iff_everywhere (by decide) (by decide)]
    exact everywhere_field_iff hx (by decide)
  | @comparison op name value x y hx hy =>
    have hkind : Kind.tag (.comparison op) ≠ Kind.extensible.tag ∧
        IsConstructed (Kind.tag (.comparison op)) := by
      cases op <;> decide
    rw [kind, isCanonicalContent_iff_everywhere hkind.1 hkind.2, everywhere_append hx,
      everywhere_field_iff hx hprimitive, everywhere_field_iff hy hprimitive, encode,
      hx.append_eq_append_iff (hx.isElement_element (Nat.le_refl _))]
  | presence name =>
    have hkind : ¬IsConstructed Kind.presence.tag := by decide
    exact iff_of_true (isCanonicalContent_of_not hkind) rfl
  | @substring name s x c y hx hc hy =>
    have hfragments : IsCanonicalContent sequenceTag c ↔ c = s.encode := by
      rw [isCanonicalContent_iff_everywhere (by decide) (by decide), Substrings.encode_eq]
      exact everywhere_fields_iff hc s.primitive
    have hle := Substrings.length_encode_le hc
    rw [kind, isCanonicalContent_iff_everywhere (by decide) (by decide), everywhere_append hx,
      everywhere_field_iff hx hprimitive, everywhere_iff_eq_element hy hle hfragments, encode,
      hx.append_eq_append_iff (hx.isElement_element (Nat.le_refl _))]
  | extensible _ hflag hc => exact Extensible.isCanonicalContent_iff_eq hflag hc hsize

end Assertion.EncodedAs

namespace Filter

/-- What is written for a filter takes no more octets than any other encoding of it. -/
theorem EncodedAs.length_toBer_le {f : Filter} {x : Octets} (hx : f.EncodedAs x) :
    f.toBer.length ≤ x.length := by
  induction f generalizing x with
  | leaf a =>
    cases hx with
    | leaf hc hx => exact hx.length_element_le hc.length_encode_le
  | negation f ih =>
    cases hx with
    | negation hc hx => exact hx.length_element_le (ih hc)
  | junction k fs ih =>
    cases hx with
    | junction hc hx =>
      apply hx.length_element_le
      rw [toBerAll_eq]
      exact hc.length_flatMap_le fun f hf y hy => ih f hf hy

/-- What is written for a filter that has an encoding is one, too. -/
theorem EncodedAs.encodedAs_toBer {f : Filter} {x : Octets} (hx : f.EncodedAs x) :
    f.EncodedAs f.toBer := by
  induction f generalizing x with
  | leaf a =>
    cases hx with
    | leaf hc hx =>
      have hle := hc.length_encode_le
      have hwritten := Assertion.encodedAs_encode (Nat.lt_of_le_of_lt hle hx.length_content_lt)
      rw [hc.withoutView_eq] at hwritten
      exact .leaf hwritten (hx.isElement_element hle)
  | negation f ih =>
    cases hx with
    | negation hc hx =>
      exact .negation (ih hc) (hx.isElement_element hc.length_toBer_le)
  | junction k fs ih =>
    cases hx with
    | junction hc hx =>
      have hle := hc.length_flatMap_le fun f _ y hy => hy.length_toBer_le
      have hclauses : Concat EncodedAs (fs.map id) (fs.flatMap toBer) := by
        apply Concat.map_flatMap
        intro f hf
        obtain ⟨y, hy, _⟩ := hc.exists_of_mem hf
        exact ih f hf hy
      rw [List.map_id] at hclauses
      rw [toBer, toBerAll_eq]
      exact .junction hclauses (hx.isElement_element hle)

/-- Among the encodings of a filter, the one that is written is the canonical one. -/
theorem EncodedAs.isCanonical_iff {f : Filter} {x : Octets} (hx : f.EncodedAs x) :
    IsCanonical x ↔ x = f.toBer := by
  rw [isCanonical_iff_everywhere]
  induction f generalizing x with
  | leaf a =>
    cases hx with
    | leaf hc hx =>
      apply everywhere_iff_eq_element hx hc.length_encode_le
      exact hc.isCanonicalContent_iff hx.length_content_lt
  | negation f ih =>
    cases hx with
    | negation hc hx =>
      apply everywhere_iff_eq_element hx hc.length_toBer_le
      rw [isCanonicalContent_iff_everywhere (by decide) (by decide)]
      exact ih hc
  | junction k fs ih =>
    cases hx with
    | junction hc hx =>
      have hle := hc.length_flatMap_le fun f _ y hy => hy.length_toBer_le
      have hkind : (Kind.junction k).tag ≠ Kind.extensible.tag ∧ IsConstructed (Kind.junction k).tag := by
        cases k <;> decide
      rw [toBer, toBerAll_eq]
      apply everywhere_iff_eq_element hx hle
      rw [isCanonicalContent_iff_everywhere hkind.1 hkind.2]
      apply everywhere_concat_iff hc
      · intro f _ y hy
        obtain ⟨c, _, hy⟩ := encodedAs_iff.1 hy
        exact ⟨_, c, hy⟩
      · intro f _ y hy
        obtain ⟨c, _, hwritten⟩ := encodedAs_iff.1 hy.encodedAs_toBer
        exact ⟨_, c, hwritten⟩
      · intro f hf y hy
        exact ih f hf hy

/-- Decodes some octets and writes what they encode. Only lengths and truth values can change,
wherever they stand. -/
def reencode (b : Octets) : Except FilterError Octets :=
  toBer <$> ofBer b

/-- What is written for a decoded filter is decoded as that filter. It is the shortest encoding of the
filter and its only canonical one, so writing it again changes nothing. -/
theorem reencode_shortest_and_canonical {b : Octets} {f : Filter} (hb : ofBer b = .ok f) :
    ofBer f.toBer = .ok f ∧ f.toBer.length ≤ b.length ∧ (f.toBer = b ↔ IsCanonical b) ∧
      (∀ b', ofBer b' = .ok f → f.toBer.length ≤ b'.length) ∧
      reencode b = .ok f.toBer ∧ reencode f.toBer = .ok f.toBer := by
  have hagain : ofBer f.toBer = .ok f := by
    obtain ⟨hx, hvalid⟩ := ofBer_eq_ok_iff.1 hb
    exact ofBer_eq_ok_iff.2 ⟨hx.encodedAs_toBer, hvalid⟩
  have hshortest : ∀ b', ofBer b' = .ok f → f.toBer.length ≤ b'.length := by
    intro b' hb'
    exact (ofBer_eq_ok_iff.1 hb').1.length_toBer_le
  have hreencode : ∀ b', ofBer b' = .ok f → reencode b' = .ok f.toBer := by
    intro b' hb'
    rw [reencode, hb']
    rfl
  refine ⟨hagain, hshortest b hb, ?_, hshortest, hreencode b hb, hreencode _ hagain⟩
  rw [(ofBer_eq_ok_iff.1 hb).1.isCanonical_iff, eq_comm]

/-- A negated extensible assertion with two lengths in longer forms than they need and a truth value
other than the usual one. -/
def padded : Octets :=
  [0xA2, 0x81, 0x0D, 0xA9, 0x0B, 0x82, 0x01, 0x61, 0x83, 0x82, 0x00, 0x01, 0x62, 0x84, 0x01, 0x01]

/-- The filter that `padded` encodes. -/
def ofPadded : Filter :=
  negation (leaf (.extensible { matchType := some "a", rule := none, value := [0x62],
                                dnAttributes := true, substrings := none }))

/-- The two lengths become shorter and the truth value the usual one, and then nothing changes any
more. -/
theorem reencode_padded :
    ofBer padded = .ok ofPadded ∧ ofPadded.toBer.length < padded.length ∧ ¬IsCanonical padded ∧
      reencode padded = .ok ofPadded.toBer ∧ reencode ofPadded.toBer = .ok ofPadded.toBer := by
  have hpadded : ofBer padded = .ok ofPadded := by cbv
  have hshorter : ofPadded.toBer.length < padded.length := by decide
  obtain ⟨_, _, hcanonical, _, hreencode, hagain⟩ := reencode_shortest_and_canonical hpadded
  refine ⟨hpadded, hshorter, ?_, hreencode, hagain⟩
  intro h
  have heq := congrArg List.length (hcanonical.2 h)
  omega

end Filter

end SearchFilter
