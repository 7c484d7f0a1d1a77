import Mathlib.Tactic.Common
import SearchFilter.Filter.Decode
import SearchFilter.Proofs.Ber.Loop
import SearchFilter.Proofs.Filter.Encoding

namespace SearchFilter

open Ber

namespace Decoding

/-- A fragment is an element, whose tag says where it goes. -/
theorem fragment_eq_ok_iff {s s' : Substrings} {r r' : Reader} :
    fragment s r = .ok s' r' ↔ ∃ f x, IsTagged f x ∧ r.Passes x r' ∧ r'.length = f.2.length ∧
      addFragment s f.1 f.2 = .ok s' := by
  simp only [fragment, Read.bind_eq_ok_iff, Read.lastLength_eq_ok_iff]
  constructor
  · rintro ⟨t, u, hheader, _, _, ⟨rfl, rfl⟩, c, v, hraw, hjudged⟩
    obtain ⟨x, hx, hpasses, hlength⟩ := Read.header_raw_iff.1 ⟨_, hheader, hraw⟩
    cases hadd : addFragment s t c with
    | error fault =>
      rw [hadd] at hjudged
      exact absurd hjudged Read.fail_ne_ok
    | ok s₁ =>
      rw [hadd] at hjudged
      obtain ⟨rfl, rfl⟩ := Read.pure_eq_ok_iff.1 hjudged
      exact ⟨(t, c), x, hx, hpasses, hlength, hadd⟩
  · rintro ⟨⟨t, c⟩, x, hx, hpasses, hlength, hadd⟩
    obtain ⟨u, hheader, hraw⟩ := Read.header_raw_iff.2 ⟨x, hx, hpasses, hlength⟩
    refine ⟨t, u, hheader, u.length, u, ⟨rfl, rfl⟩, c, r', hraw, ?_⟩
    dsimp only at hadd
    rw [hadd]
    exact Read.pure_eq_ok_iff.2 ⟨rfl, rfl⟩

/-- A fragment that is accepted is written behind the fragments before it. -/
theorem tagged_of_addFragment {s s' : Substrings} {t : UInt8} {c : Octets}
    (hadd : addFragment s t c = .ok s') : s'.tagged = s.tagged ++ [(t, c)] := by
  obtain ⟨initial, any, final⟩ := s
  unfold addFragment at hadd
  split_ifs at hadd with hfinal hfirst hlate hany hlast
  all_goals cases hadd
  all_goals simp only [Option.isSome_iff_ne_none, ne_eq, not_not] at hfinal
  · simp only [Bool.or_eq_true, Option.isSome_iff_ne_none, ne_eq, Bool.not_eq_true', not_or, not_not,
      Bool.not_eq_false, List.isEmpty_iff] at hlate
    obtain ⟨rfl, rfl⟩ := hlate
    simp [Substrings.tagged, hfinal, hfirst]
  · simp [Substrings.tagged, hfinal, hany]
  · simp [Substrings.tagged, hfinal, hlast]

/-- One more fragment, given its tag and its content together. -/
def addTagged (s : Substrings) (f : UInt8 × Octets) : Option Substrings :=
  (addFragment s f.1 f.2).toOption

theorem addTagged_eq_some_iff {s s' : Substrings} {f : UInt8 × Octets} :
    addTagged s f = some s' ↔ addFragment s f.1 f.2 = .ok s' := by
  unfold addTagged
  cases addFragment s f.1 f.2 <;> simp [Except.toOption]

/-- Fragments that were accepted one after the other are written in that order. -/
theorem tagged_of_foldlM {s s' : Substrings} {l : List (UInt8 × Octets)}
    (hfold : l.foldlM addTagged s = some s') : s'.tagged = s.tagged ++ l := by
  induction l generalizing s with
  | nil =>
    cases hfold
    rw [List.append_nil]
  | cons f l ih =>
    rw [List.foldlM_cons, Option.bind_eq_bind, Option.bind_eq_some_iff] at hfold
    obtain ⟨s₁, hadd, hfold⟩ := hfold
    rw [ih hfold, tagged_of_addFragment (addTagged_eq_some_iff.1 hadd), List.append_assoc]
    rfl

/-- Fragments in the order in which they are written are accepted one after the other. -/
theorem foldlM_tagged (s : Substrings) :
    s.tagged.foldlM addTagged { initial := none, any := [], final := none } = some s := by
  have hany (initial : Option Octets) (before l : List Octets) :
      (l.map (Tags.fragment.any, ·)).foldlM addTagged { initial, any := before, final := none } =
        some { initial, any := before ++ l, final := none } := by
    induction l generalizing before with
    | nil => simp
    | cons c l ih =>
      have hone : addTagged { initial, any := before, final := none } (Tags.fragment.any, c) =
          some { initial, any := before ++ [c], final := none } := rfl
      rw [List.map_cons, List.foldlM_cons, hone]
      simpa using ih (before ++ [c])
  obtain ⟨initial, any, final⟩ := s
  have hfirst : (initial.toList.map (Tags.fragment.initial, ·)).foldlM addTagged
      { initial := none, any := [], final := none } = some { initial, any := [], final := none } := by
    cases initial <;> rfl
  have hlast : (final.toList.map (Tags.fragment.final, ·)).foldlM addTagged
      { initial, any, final := none } = some { initial, any, final } := by
    cases final <;> rfl
  simp only [Substrings.tagged, List.foldlM_append, hfirst, Option.bind_eq_bind, Option.bind_some,
    hany, List.nil_append, hlast]

/-- Fragments that were read lie in the octets passed, each with its tag and in the order in which
they are written. -/
theorem fragments_sound {stop n : Nat} {s : Substrings} {r r' : Reader}
    (h : fragments stop n { initial := none, any := [], final := none } r = .ok s r') :
    ∃ x, Concat IsTagged s.tagged x ∧ r.Passes x r' := by
  obtain ⟨l, x, hx, hpasses, hfold⟩ := Read.loop_sound (R := IsTagged) addTagged
    fragment (fragments stop) (fun _ => rfl) (fun _ _ => rfl) (by
      intro s s' r r' h
      obtain ⟨f, x, hx, hpasses, _, hadd⟩ := fragment_eq_ok_iff.1 h
      exact ⟨f, x, hx, hpasses, addTagged_eq_some_iff.2 hadd⟩) h
  have htagged : s.tagged = l := tagged_of_foldlM hfold
  exact ⟨x, htagged ▸ hx, hpasses⟩

/-- Before the octets of fragments in their order, a reader reads all of them. -/
theorem fragments_complete {stop n : Nat} {s : Substrings} {r t : Reader} {x : Octets}
    (hx : Concat IsTagged s.tagged x) (hpasses : r.Passes x t) (hstop : t.offset = stop)
    (hbudget : x.length ≤ n) :
    ∃ m, fragments stop n { initial := none, any := [], final := none } r =
      .ok s { t with length := m } := by
  refine Read.loop_complete addTagged fragment (fragments stop)
    (fun _ => rfl) (fun _ _ => rfl) ?_ (fun _ _ h => IsElement.ne_nil h) hx (foldlM_tagged s)
    hpasses hstop hbudget
  intro s s' r t f x hx hadd hpasses
  exact ⟨f.2.length, fragment_eq_ok_iff.2
    ⟨f, x, hx, hpasses.withLength _, rfl, addTagged_eq_some_iff.1 hadd⟩⟩

/-- One more field, given its tag and its content together. -/
def Fields.add (s : Fields) (f : UInt8 × Octets) : Option Fields :=
  let s' := { s with last := f.1 }
  if f.1 ≤ s.last then Option.none
  else if f.1 = Tags.field.rule then (Utf8.decode? f.2).map fun rule => { s' with rule }
  else if f.1 = Tags.field.matchType then
    (Utf8.decode? f.2).map fun matchType => { s' with matchType }
  else if f.1 = Tags.field.value then some { s' with value := f.2 }
  else if f.1 = Tags.field.dnAttributes then
    match f.2 with
    | [b] => some { s' with dnAttributes := b != 0 }
    | _ => Option.none
  else Option.none

theorem peek?_of_passes {t : UInt8} {c x : Octets} {r r' : Reader} (hx : IsElement t c x)
    (hpasses : r.Passes x r') : r.peek? = some t := by
  obtain ⟨l, _, rfl⟩ := hx
  rw [Reader.peek?, hpasses.rest_eq]
  rfl

/-- A field that was read is an element with a tag that may come next. -/
theorem field_sound {s s' : Fields} {r r' : Reader} (h : field s r = .ok s' r') :
    ∃ f x, IsTagged f x ∧ r.Passes x r' ∧ s.add f = some s' := by
  simp only [field, Read.bind_eq_ok_iff, Read.get_eq_ok_iff] at h
  obtain ⟨u, v, ⟨hu, hv⟩, h⟩ := h
  subst u v
  have hsome : r.peek? ≠ none := by
    intro hnone
    rw [hnone] at h
    exact Read.fail_ne_ok h
  obtain ⟨tag, hpeek⟩ := Option.ne_none_iff_exists'.1 hsome
  rw [hpeek] at h
  dsimp only at h
  split_ifs at h with horder hrule htype hvalue hdn
  · exact absurd h Read.fail_ne_ok
  · simp only [Read.bind_eq_ok_iff, Read.string_eq_ok_iff, Read.pure_eq_ok_iff] at h
    obtain ⟨rule, _, ⟨x, hx, hpasses, _⟩, rfl, rfl⟩ := h
    refine ⟨(tag, Utf8.encode rule), x, hx, hpasses, ?_⟩
    simp only [Fields.add]
    rw [if_neg horder, if_pos hrule, Utf8.decode?_eq_some_iff.2 rfl]
    rfl
  · simp only [Read.bind_eq_ok_iff, Read.string_eq_ok_iff, Read.pure_eq_ok_iff] at h
    obtain ⟨matchType, _, ⟨x, hx, hpasses, _⟩, rfl, rfl⟩ := h
    refine ⟨(tag, Utf8.encode matchType), x, hx, hpasses, ?_⟩
    simp only [Fields.add]
    rw [if_neg horder, if_neg hrule, if_pos htype, Utf8.decode?_eq_some_iff.2 rfl]
    rfl
  · simp only [Read.bind_eq_ok_iff, Read.octetString_eq_ok_iff, Read.pure_eq_ok_iff] at h
    obtain ⟨value, _, ⟨x, hx, hpasses, _⟩, rfl, rfl⟩ := h
    refine ⟨(tag, value), x, hx, hpasses, ?_⟩
    simp only [Fields.add]
    rw [if_neg horder, if_neg hrule, if_neg htype, if_pos hvalue]
  · simp only [Read.bind_eq_ok_iff, Read.boolean_eq_ok_iff, Read.pure_eq_ok_iff] at h
    obtain ⟨_, _, ⟨b, x, hx, rfl, hpasses, _⟩, rfl, rfl⟩ := h
    refine ⟨(tag, [b]), x, hx, hpasses, ?_⟩
    simp only [Fields.add]
    rw [if_neg horder, if_neg hrule, if_neg htype, if_neg hvalue, if_pos hdn]
  · exact absurd h Read.fail_ne_ok

/-- Before an element with a tag that may come next, a reader reads that field. -/
theorem field_complete {s s' : Fields} {r t : Reader} {f : UInt8 × Octets} {x : Octets}
    (hx : IsTagged f x) (hadd : s.add f = some s') (hpasses : r.Passes x t) :
    field s r = .ok s' { t with length := f.2.length } := by
  obtain ⟨tag, c⟩ := f
  have hpasses' := hpasses.withLength c.length
  simp only [field, Read.bind_eq_ok_iff, Read.get_eq_ok_iff]
  refine ⟨r, r, ⟨rfl, rfl⟩, ?_⟩
  rw [peek?_of_passes hx hpasses]
  simp only [Fields.add] at hadd
  dsimp only
  split_ifs at hadd ⊢ with horder hrule htype hvalue hdn
  · obtain ⟨rule, hdecode, rfl⟩ := Option.map_eq_some_iff.1 hadd
    obtain rfl := Utf8.decode?_eq_some_iff.1 hdecode
    simp only [Read.bind_eq_ok_iff, Read.string_eq_ok_iff, Read.pure_eq_ok_iff]
    exact ⟨rule, _, ⟨x, hx, hpasses', rfl⟩, rfl, rfl⟩
  · obtain ⟨matchType, hdecode, rfl⟩ := Option.map_eq_some_iff.1 hadd
    obtain rfl := Utf8.decode?_eq_some_iff.1 hdecode
    simp only [Read.bind_eq_ok_iff, Read.string_eq_ok_iff, Read.pure_eq_ok_iff]
    exact ⟨matchType, _, ⟨x, hx, hpasses', rfl⟩, rfl, rfl⟩
  · cases hadd
    simp only [Read.bind_eq_ok_iff, Read.octetString_eq_ok_iff, Read.pure_eq_ok_iff]
    exact ⟨c, _, ⟨x, hx, hpasses', rfl⟩, rfl, rfl⟩
  · split at hadd
    · rename_i b
      cases hadd
      simp only [Read.bind_eq_ok_iff, Read.boolean_eq_ok_iff, Read.pure_eq_ok_iff]
      exact ⟨_, _, ⟨b, x, hx, rfl, hpasses', rfl⟩, rfl, rfl⟩
    · cases hadd

/-- The fields read so far with their tags, in the order in which they are written, the truth value
left out. -/
def Fields.tagged (s : Fields) : List (UInt8 × Octets) :=
  s.rule.toList.map (Tags.field.rule, Utf8.encode ·) ++
    s.matchType.toList.map (Tags.field.matchType, Utf8.encode ·) ++
    s.value.toList.map (Tags.field.value, ·)

/-- The fields `l` were read, and no tag among them is higher than the last one. So they came in the
order in which they are written. -/
def Fields.Holds (s : Fields) (l : List (UInt8 × Octets)) : Prop :=
  (∃ flag, FlagField s.dnAttributes flag ∧ l = s.tagged ++ flag) ∧ ∀ f ∈ l, f.1 ≤ s.last

theorem Fields.holds_none : Fields.none.Holds [] :=
  ⟨⟨[], .absent, rfl⟩, by simp⟩

/-- Fields stay in order when one with a higher tag than the last is added behind them. -/
theorem Fields.Holds.append {s s' : Fields} {l flag : List (UInt8 × Octets)} {f : UInt8 × Octets}
    (hs : s.Holds l) (hlast : s.last < f.1) (hlast' : s'.last = f.1)
    (hflag : FlagField s'.dnAttributes flag) (hl : l ++ [f] = s'.tagged ++ flag) :
    s'.Holds (l ++ [f]) := by
  refine ⟨⟨flag, hflag, hl⟩, ?_⟩
  intro g hg
  rw [hlast']
  rcases List.mem_append.1 hg with hg | hg
  · exact UInt8.le_trans (hs.2 g hg) (UInt8.le_of_lt hlast)
  · rw [List.mem_singleton.1 hg]
    exact UInt8.le_refl f.1

/-- No field that was read has the tag of the next one or a higher tag. -/
theorem Fields.Holds.absent {s : Fields} {l : List (UInt8 × Octets)} (hs : s.Holds l) {t : UInt8}
    (hlast : s.last < t) :
    (t ≤ Tags.field.rule → s.rule = .none) ∧ (t ≤ Tags.field.matchType → s.matchType = .none) ∧
      (t ≤ Tags.field.value → s.value = .none) ∧
      (t ≤ Tags.field.dnAttributes → FlagField s.dnAttributes [] ∧ l = s.tagged) := by
  obtain ⟨⟨flag, hflag, hl⟩, hbound⟩ := hs
  have hfree {u : UInt8} (hu : t ≤ u) (c : Octets) : (u, c) ∉ s.tagged ++ flag := by
    intro hmem
    have hle := UInt8.le_trans hu (hbound _ (hl ▸ hmem))
    exact UInt8.not_le.2 hlast hle
  refine ⟨fun hu => ?_, fun hu => ?_, fun hu => ?_, fun hu => ?_⟩
  · cases hrule : s.rule with
    | none => rfl
    | some rule => exact absurd (by simp [tagged, hrule]) (hfree hu (Utf8.encode rule))
  · cases htype : s.matchType with
    | none => rfl
    | some matchType => exact absurd (by simp [tagged, htype]) (hfree hu (Utf8.encode matchType))
  · cases hvalue : s.value with
    | none => rfl
    | some value => exact absurd (by simp [tagged, hvalue]) (hfree hu value)
  · generalize s.dnAttributes = v at hflag
    cases hflag with
    | absent => exact ⟨.absent, hl.trans (List.append_nil _)⟩
    | present b => exact absurd (by simp) (hfree hu [b])

/-- Since tags ascend, a field that is accepted is written behind the fields before it. -/
theorem Fields.Holds.add {s s' : Fields} {l : List (UInt8 × Octets)} {f : UInt8 × Octets}
    (hs : s.Holds l) (hadd : s.add f = some s') : s'.Holds (l ++ [f]) := by
  obtain ⟨t, c⟩ := f
  simp only [Fields.add] at hadd
  split_ifs at hadd with horder hrule htype hvalue hdn
  all_goals have hlast := UInt8.not_le.1 horder
  all_goals obtain ⟨hnoRule, hnoType, hnoValue, hnoFlag⟩ := hs.absent hlast
  · obtain ⟨rule, hdecode, rfl⟩ := Option.map_eq_some_iff.1 hadd
    obtain rfl := Utf8.decode?_eq_some_iff.1 hdecode
    subst hrule
    obtain ⟨hflag, rfl⟩ := hnoFlag (by decide)
    refine hs.append hlast rfl hflag ?_
    simp [tagged, hnoRule (by decide), hnoType (by decide), hnoValue (by decide)]
  · obtain ⟨matchType, hdecode, rfl⟩ := Option.map_eq_some_iff.1 hadd
    obtain rfl := Utf8.decode?_eq_some_iff.1 hdecode
    subst htype
    obtain ⟨hflag, rfl⟩ := hnoFlag (by decide)
    refine hs.append hlast rfl hflag ?_
    simp [tagged, hnoType (by decide), hnoValue (by decide)]
  · cases hadd
    subst hvalue
    obtain ⟨hflag, rfl⟩ := hnoFlag (by decide)
    refine hs.append hlast rfl hflag ?_
    simp [tagged, hnoValue (by decide)]
  · split at hadd
    · rename_i b
      cases hadd
      subst hdn
      obtain ⟨_, rfl⟩ := hnoFlag (by decide)
      exact hs.append hlast rfl (.present b) rfl
    · cases hadd

/-- Fields that are accepted one after the other are written in that order. -/
theorem Fields.holds_of_foldlM {s s' : Fields} {l m : List (UInt8 × Octets)} (hs : s.Holds l)
    (hfold : m.foldlM Fields.add s = some s') : s'.Holds (l ++ m) := by
  induction m generalizing s l with
  | nil =>
    cases hfold
    rwa [List.append_nil]
  | cons f m ih =>
    rw [List.foldlM_cons, Option.bind_eq_bind, Option.bind_eq_some_iff] at hfold
    obtain ⟨s₁, hadd, hfold⟩ := hfold
    rw [← List.singleton_append, ← List.append_assoc]
    exact ih (hs.add hadd) hfold

/-- Fields in the order in which they are written are accepted one after the other. -/
theorem Fields.foldlM_tagged {e : Extensible} {flag : List (UInt8 × Octets)}
    (hflag : FlagField e.dnAttributes flag) :
    ∃ last, (e.tagged ++ flag).foldlM Fields.add Fields.none =
      some { rule := e.rule, matchType := e.matchType, value := some e.value,
             dnAttributes := e.dnAttributes, last } := by
  obtain ⟨matchType, rule, value, dnAttributes, substrings⟩ := e
  have hdecode (s : String) : Utf8.decode? (Utf8.encode s) = some s :=
    Utf8.decode?_eq_some_iff.2 rfl
  cases hflag with
  | absent =>
    cases rule <;> cases matchType <;>
      simp [Extensible.tagged, Fields.add, Fields.none, Tags.field, hdecode]
  | present b =>
    cases rule <;> cases matchType <;>
      simp [Extensible.tagged, Fields.add, Fields.none, Tags.field, hdecode] <;> rfl

/-- A comparison is read off two elements: the attribute and the value. -/
theorem comparison_eq_ok_iff {op : Comparison} {a : Assertion} {r r' : Reader} :
    comparison op r = .ok a r' ↔ ∃ name value x y, a = .comparison op name value ∧
      IsElement octetStringTag (Utf8.encode name) x ∧ IsElement octetStringTag value y ∧
      r.Passes (x ++ y) r' ∧ r'.length = value.length := by
  simp only [comparison, attributeName, Read.bind_eq_ok_iff, Read.string_eq_ok_iff,
    Read.octetString_eq_ok_iff, Read.pure_eq_ok_iff]
  constructor
  · rintro ⟨name, s, ⟨x, hx, hname, _⟩, value, _, ⟨y, hy, hvalue, hlength⟩, rfl, rfl⟩
    exact ⟨name, value, x, y, rfl, hx, hy, hname.trans hvalue, hlength⟩
  · rintro ⟨name, value, x, y, rfl, hx, hy, hpasses, hlength⟩
    obtain ⟨s, hname, hvalue, hs⟩ := hpasses.split (Utf8.encode name).length
    exact ⟨name, s, ⟨x, hx, hname, hs⟩, value, r', ⟨y, hy, hvalue, hlength⟩, rfl, rfl⟩

/-- A presence test is read off a content that is a name and not empty. -/
theorem presence_eq_ok_iff {a : Assertion} {r r' : Reader} :
    presence r = .ok a r' ↔ ∃ name, a = .presence name ∧ name ≠ "" ∧
      (Utf8.encode name).length = r.length ∧ r.Passes (Utf8.encode name) r' ∧
      r'.length = r.length := by
  simp only [presence, Read.bind_eq_ok_iff, Read.lastLength_eq_ok_iff, Read.raw_eq_ok_iff,
    Read.text_eq_ok_iff, Read.ite_eq_ok_iff, Read.fail_ne_ok, Read.pure_eq_ok_iff, and_false,
    false_or, String.isEmpty_iff]
  constructor
  · rintro ⟨_, _, ⟨rfl, rfl⟩, _, s, ⟨hcount, hpasses, hlength⟩, name, _, ⟨rfl, rfl⟩, hname, rfl, rfl⟩
    exact ⟨name, rfl, hname, hcount, hpasses, hlength⟩
  · rintro ⟨name, rfl, hname, hcount, hpasses, hlength⟩
    exact ⟨_, r, ⟨rfl, rfl⟩, _, r', ⟨hcount, hpasses, hlength⟩, name, r', ⟨rfl, rfl⟩, hname, rfl, rfl⟩

/-- The octets of a substring assertion that was read are an encoding of it. -/
theorem substring_sound {a : Assertion} {r r' : Reader} (h : substring r = .ok a r') :
    ∃ name s x, a = .substring name s ∧ a.EncodedAs x ∧ r.Passes x r' := by
  simp only [substring, attributeName, Read.bind_eq_ok_iff, Read.string_eq_ok_iff,
    Read.expect_eq_ok_iff, Read.header_eq_ok_iff, Read.offset_eq_ok_iff, Read.ite_eq_ok_iff,
    Read.pure_eq_ok_iff, Read.fail_ne_ok, and_false, or_false] at h
  obtain ⟨name, r₁, ⟨x, hx, hname, _⟩, _, r₂, ⟨⟨l, hl, hheader, _⟩, rfl⟩, _, u, ⟨rfl, hu⟩, s, r₃,
    hfragments, _, _, ⟨rfl, rfl⟩, hstop, rfl, rfl⟩ := h
  subst u
  obtain ⟨c, hc, hcontent⟩ := fragments_sound hfragments
  have hlength : r₂.length = c.length := by
    have hoffset := hcontent.offset_eq
    omega
  rw [hlength] at hl
  exact ⟨name, s, _, rfl, .substring hx hc ⟨l, hl, rfl⟩, hname.trans (hheader.trans hcontent)⟩

/-- A reader that stands before an encoding of a substring assertion reads it. -/
theorem substring_complete {name : String} {s : Substrings} {x : Octets} {r t : Reader}
    (hx : (Assertion.substring name s).EncodedAs x) (hpasses : r.Passes x t) :
    ∃ m, substring r = .ok (.substring name s) { t with length := m } := by
  cases hx with
  | @substring _ _ x c _ hx hc hy =>
    obtain ⟨l, hl, rfl⟩ := hy
    obtain ⟨r₁, hname, hrest, hlength⟩ := hpasses.split (Utf8.encode name).length
    obtain ⟨r₂, hheader, hcontent, hr₂⟩ := hrest.split c.length
    have hoffset := hcontent.offset_eq
    obtain ⟨m, hm⟩ := fragments_complete (n := c.length) hc hcontent rfl (Nat.le_refl _)
    have hroom : c.length ≤ r₂.rest.length := by
      rw [hcontent.rest_eq, List.length_append]
      omega
    refine ⟨m, ?_⟩
    simp only [substring, attributeName, Read.bind_eq_ok_iff, Read.string_eq_ok_iff,
      Read.expect_eq_ok_iff, Read.header_eq_ok_iff, Read.offset_eq_ok_iff, Read.ite_eq_ok_iff,
      Read.pure_eq_ok_iff, Read.fail_ne_ok, and_false, or_false]
    refine ⟨name, r₁, ⟨x, hx, hname, hlength⟩, c.length, r₂, ⟨⟨l, hr₂ ▸ hl, hheader, hr₂ ▸ hroom⟩, hr₂.symm⟩,
      _, r₂, ⟨rfl, rfl⟩, s, { t with length := m }, ?_, _, _, ⟨rfl, rfl⟩, hoffset, rfl, rfl⟩
    rwa [← hoffset]

/-- Fields that were read lie in the octets passed in their order, the truth value perhaps left
out. -/
theorem fields_sound {stop n : Nat} {s : Fields} {r r' : Reader}
    (h : fields stop n Fields.none r = .ok s r') :
    ∃ flag x, FlagField s.dnAttributes flag ∧ Concat IsTagged (s.tagged ++ flag) x ∧
      r.Passes x r' := by
  obtain ⟨l, x, hx, hpasses, hfold⟩ := Read.loop_sound (R := IsTagged) Fields.add
    field (fields stop) (fun _ => rfl) (fun _ _ => rfl)
    (fun _ _ _ _ h => field_sound h) h
  obtain ⟨⟨flag, hflag, hl⟩, _⟩ := Fields.holds_of_foldlM Fields.holds_none hfold
  rw [List.nil_append] at hl
  exact ⟨flag, x, hflag, hl ▸ hx, hpasses⟩

/-- The octets of an extensible assertion that was read are an encoding of it, and it can be asked
for. -/
theorem extensible_sound {stop : Nat} {a : Assertion} {r r' : Reader}
    (h : extensible stop r = .ok a r') :
    ∃ e x, a = .extensible e ∧ a.EncodedAs x ∧ a.Valid ∧ r.Passes x r' := by
  simp only [extensible, Read.bind_eq_ok_iff, Read.offset_eq_ok_iff] at h
  obtain ⟨_, u, ⟨rfl, hu⟩, s, r₁, hfields, h⟩ := h
  subst u
  obtain ⟨flag, x, hflag, hx, hpasses⟩ := fields_sound hfields
  obtain ⟨rule, matchType, value, dnAttributes, last⟩ := s
  cases value with
  | none => exact absurd h Read.fail_ne_ok
  | some value =>
    dsimp only at h
    generalize he : Extensible.mk matchType rule value dnAttributes none = e at h
    cases hvalidate : e.validate with
    | error fault =>
      rw [hvalidate] at h
      exact absurd h Read.fail_ne_ok
    | ok =>
      rw [hvalidate] at h
      obtain ⟨rfl, rfl⟩ := Read.pure_eq_ok_iff.1 h
      subst he
      exact ⟨_, x, rfl, .extensible rfl hflag hx, Extensible.validate_eq_ok_iff.1 hvalidate, hpasses⟩

/-- A reader that stands before an encoding of an extensible assertion reads it, if it can be asked
for. -/
theorem extensible_complete {e : Extensible} {x : Octets} {r t : Reader}
    (hx : (Assertion.extensible e).EncodedAs x) (hvalid : (Assertion.extensible e).Valid)
    (hpasses : r.Passes x t) :
    ∃ m, extensible t.offset r = .ok (.extensible e) { t with length := m } := by
  cases hx with
  | @extensible _ flag _ hview hflag hc =>
    obtain ⟨last, hfold⟩ := Fields.foldlM_tagged hflag
    have hbudget : x.length ≤ t.offset - r.offset := by
      rw [hpasses.offset_eq]
      omega
    obtain ⟨m, hm⟩ := Read.loop_complete Fields.add field (fields t.offset) (fun _ => rfl) (fun _ _ => rfl)
      (fun _ _ _ _ _ _ hx hadd hpasses => ⟨_, field_complete hx hadd hpasses⟩)
      (fun _ _ h => IsElement.ne_nil h) hc hfold hpasses rfl hbudget
    refine ⟨m, ?_⟩
    simp only [extensible, Read.bind_eq_ok_iff, Read.offset_eq_ok_iff]
    refine ⟨_, r, ⟨rfl, rfl⟩, _, _, hm, ?_⟩
    have hself : { e with substrings := none } = e := by
      obtain ⟨matchType, rule, value, dnAttributes, substrings⟩ := e
      cases hview
      rfl
    dsimp only
    rw [hself, Extensible.validate_eq_ok_iff.2 hvalid]
    exact Read.pure_eq_ok_iff.2 ⟨rfl, rfl⟩

end Decoding

end SearchFilter
