import Mathlib.Data.List.Basic
import Mathlib.Tactic.Common
import SearchFilter.Filter.Encode
import SearchFilter.Proofs.Ber.Fields
import SearchFilter.Proofs.Filter.Tree
import SearchFilter.Proofs.Octets.Utf8

namespace SearchFilter

open Ber

/-- The fragments with their tags, in the order in which they are written. -/
def Substrings.tagged (s : Substrings) : List (UInt8 × Octets) :=
  s.initial.toList.map (Tags.fragment.initial, ·) ++ s.any.map (Tags.fragment.any, ·) ++
    s.final.toList.map (Tags.fragment.final, ·)

/-- The field of a truth value, which may be left out where it is false. -/
inductive FlagField : Bool → List (UInt8 × Octets) → Prop where
  | absent : FlagField false []
  | present (b : UInt8) : FlagField (b != 0) [(Tags.field.dnAttributes, [b])]

/-- The fields in front of the truth value with their tags, in the order in which they are written. -/
def Extensible.tagged (e : Extensible) : List (UInt8 × Octets) :=
  e.rule.toList.map (Tags.field.rule, Utf8.encode ·) ++
    e.matchType.toList.map (Tags.field.matchType, Utf8.encode ·) ++ [(Tags.field.value, e.value)]

/-- The content of an element that encodes a leaf. -/
inductive Assertion.EncodedAs : Assertion → Octets → Prop where
  | empty {x : Octets} (hx : IsElement Read.nullTag [] x) : EncodedAs .empty x
  | comparison {op : Comparison} {name : String} {value x y : Octets}
    (hx : IsElement octetStringTag (Utf8.encode name) x) (hy : IsElement octetStringTag value y) :
    EncodedAs (.comparison op name value) (x ++ y)
  | presence (name : String) : EncodedAs (.presence name) (Utf8.encode name)
  | substring {name : String} {s : Substrings} {x c y : Octets}
    (hx : IsElement octetStringTag (Utf8.encode name) x) (hc : Concat IsTagged s.tagged c)
    (hy : IsElement sequenceTag c y) : EncodedAs (.substring name s) (x ++ y)
  | extensible {e : Extensible} {flag : List (UInt8 × Octets)} {c : Octets}
    (hview : e.substrings = none) (hflag : FlagField e.dnAttributes flag)
    (hc : Concat IsTagged (e.tagged ++ flag) c) : EncodedAs (.extensible e) c

/-- The elements that encode a filter: the tag of its kind, and as content the encodings of its
clauses or the fields of its assertion. -/
inductive Filter.EncodedAs : Filter → Octets → Prop where
  | leaf {a : Assertion} {c x : Octets} (hc : a.EncodedAs c) (hx : IsElement a.kind.tag c x) :
    EncodedAs (leaf a) x
  | negation {f : Filter} {c x : Octets} (hc : EncodedAs f c) (hx : IsElement Kind.negation.tag c x) :
    EncodedAs (negation f) x
  | junction {k : Connective} {fs : List Filter} {c x : Octets} (hc : Concat EncodedAs fs c)
    (hx : IsElement (Kind.junction k).tag c x) : EncodedAs (junction k fs) x

theorem Kind.tag_injective {k k' : Kind} (h : k.tag = k'.tag) : k = k' := by
  have hk := ofTag?_tag k
  rw [h, ofTag?_tag] at hk
  exact (Option.some.inj hk).symm

/-- What the elements of one tag among some fields hold. -/
def contents (t : UInt8) (fields : List (UInt8 × Octets)) : List Octets :=
  (fields.filter (·.1 == t)).map Prod.snd

theorem contents_append (t : UInt8) (l m : List (UInt8 × Octets)) :
    contents t (l ++ m) = contents t l ++ contents t m := by
  simp [contents]

theorem contents_map {α : Type} (t u : UInt8) (g : α → Octets) (l : List α) :
    contents t (l.map fun a => (u, g a)) = if u = t then l.map g else [] := by
  by_cases h : u = t <;> simp [contents, List.filter_map, Function.comp_def, h]

theorem contents_map_mk (t u : UInt8) (l : List Octets) :
    contents t (l.map (u, ·)) = if u = t then l else [] := by
  simpa using contents_map t u id l

private theorem eq_of_toList_eq {α : Type} {a b : Option α} (h : a.toList = b.toList) : a = b := by
  cases a <;> cases b <;> simp_all

/-- The tags say which fragment is which. -/
theorem Substrings.tagged_injective {s s' : Substrings} (h : s.tagged = s'.tagged) : s = s' := by
  have hcontents (s : Substrings) :
      contents Tags.fragment.initial s.tagged = s.initial.toList ∧
        contents Tags.fragment.any s.tagged = s.any ∧
        contents Tags.fragment.final s.tagged = s.final.toList := by
    simp [tagged, contents_append, contents_map_mk, Tags.fragment]
  obtain ⟨hinitial, hany, hfinal⟩ := hcontents s
  obtain ⟨hinitial', hany', hfinal'⟩ := hcontents s'
  rw [h] at hinitial hany hfinal
  obtain ⟨initial, any, final⟩ := s
  obtain rfl := eq_of_toList_eq (hinitial'.symm.trans hinitial)
  obtain rfl := eq_of_toList_eq (hfinal'.symm.trans hfinal)
  obtain rfl := hany'.symm.trans hany
  rfl

/-- A field left out is false, so a truth value can be told whether or not its field is there. -/
theorem FlagField.eq_of_contents_eq {v w : Bool} {l m : List (UInt8 × Octets)}
    (hv : FlagField v l) (hw : FlagField w m)
    (h : contents Tags.field.dnAttributes l = contents Tags.field.dnAttributes m) : v = w := by
  cases hv <;> cases hw <;> simp_all [contents]

/-- The tags say which field is which. -/
theorem Extensible.eq_of_tagged_eq {e e' : Extensible} {flag flag' : List (UInt8 × Octets)}
    (hview : e.substrings = none) (hview' : e'.substrings = none)
    (hflag : FlagField e.dnAttributes flag) (hflag' : FlagField e'.dnAttributes flag')
    (h : e.tagged ++ flag = e'.tagged ++ flag') : e = e' := by
  have houtside {v : Bool} {l : List (UInt8 × Octets)} (hl : FlagField v l) (t : UInt8)
      (ht : t ≠ Tags.field.dnAttributes) : contents t l = [] := by
    cases hl <;> simp [contents, ht.symm]
  have hcontents {v : Bool} {l : List (UInt8 × Octets)} (hl : FlagField v l) (e : Extensible) :
      contents Tags.field.rule (e.tagged ++ l) = e.rule.toList.map Utf8.encode ∧
        contents Tags.field.matchType (e.tagged ++ l) = e.matchType.toList.map Utf8.encode ∧
        contents Tags.field.value (e.tagged ++ l) = [e.value] ∧
        contents Tags.field.dnAttributes (e.tagged ++ l) = contents Tags.field.dnAttributes l := by
    have hvalue (t : UInt8) : contents t [(Tags.field.value, e.value)] =
        if Tags.field.value = t then [e.value] else [] := contents_map_mk t Tags.field.value [e.value]
    simp only [tagged, contents_append, contents_map, hvalue, houtside hl _ (by decide : Tags.field.rule ≠ _),
      houtside hl _ (by decide : Tags.field.matchType ≠ _), houtside hl _ (by decide : Tags.field.value ≠ _)]
    simp [Tags.field]
  obtain ⟨hrule, htype, hvalue, hdn⟩ := hcontents hflag e
  obtain ⟨hrule', htype', hvalue', hdn'⟩ := hcontents hflag' e'
  rw [h] at hrule htype hvalue hdn
  have hmap := List.map_injective_iff.2 fun _ _ h => Utf8.encode_injective h
  obtain ⟨matchType, rule, value, dnAttributes, substrings⟩ := e
  obtain rfl := eq_of_toList_eq (hmap (hrule'.symm.trans hrule))
  obtain rfl := eq_of_toList_eq (hmap (htype'.symm.trans htype))
  obtain rfl := List.singleton_inj.1 (hvalue'.symm.trans hvalue)
  obtain rfl := hflag'.eq_of_contents_eq hflag (hdn'.symm.trans hdn)
  obtain rfl := hview'.trans hview.symm
  rfl

/-- Assertions of one kind with the same encoding are the same. -/
theorem Assertion.EncodedAs.unique {a b : Assertion} {c d : Octets} (ha : a.EncodedAs c)
    (hb : b.EncodedAs d) (hkind : a.kind = b.kind) (heq : c = d) : a = b := by
  cases ha with
  | empty _ =>
    cases hb with
    | empty _ => rfl
    | _ => cases hkind
  | comparison hx hy =>
    cases hb with
    | comparison hx' hy' =>
      cases hkind
      obtain ⟨_, hname, _, heq⟩ := hx.unique hx' heq
      obtain ⟨_, rfl, _⟩ := hy.unique hy' (congrArg (· ++ []) heq)
      rw [Utf8.encode_injective hname]
    | _ => cases hkind
  | presence name =>
    cases hb with
    | presence name' => rw [Utf8.encode_injective heq]
    | _ => cases hkind
  | substring hx hc hy =>
    cases hb with
    | substring hx' hc' hy' =>
      obtain ⟨_, hname, _, heq⟩ := hx.unique hx' heq
      obtain ⟨_, rfl, _⟩ := hy.unique hy' (congrArg (· ++ []) heq)
      rw [Utf8.encode_injective hname, Substrings.tagged_injective (unique_tagged hc hc')]
    | _ => cases hkind
  | extensible hview hflag hc =>
    cases hb with
    | extensible hview' hflag' hc' =>
      subst heq
      rw [Extensible.eq_of_tagged_eq hview hview' hflag hflag' (unique_tagged hc hc')]
    | _ => cases hkind

/-- What has an encoding has no view. -/
theorem Assertion.EncodedAs.withoutView_eq {a : Assertion} {c : Octets} (hc : a.EncodedAs c) :
    a.withoutView = a := by
  cases hc with
  | @extensible e _ _ hview _ _ =>
    obtain ⟨matchType, rule, value, dnAttributes, substrings⟩ := e
    cases hview
    rfl
  | _ => rfl

/-- Fragments are written as elements with their tags, in order. -/
theorem Substrings.encode_eq (s : Substrings) :
    s.encode = s.tagged.flatMap fun p => element p.1 p.2 := by
  obtain ⟨initial, any, final⟩ := s
  cases initial <;> cases final <;>
    simp [encode, tagged, optionalElement, List.flatMap_append, List.flatMap_map]

/-- The field of the truth value that is written. -/
def Extensible.writtenFlag (e : Extensible) : List (UInt8 × Octets) :=
  if e.dnAttributes then [(Tags.field.dnAttributes, [Writer.booleanOctet true])] else []

theorem Extensible.flagField_writtenFlag (e : Extensible) :
    FlagField e.dnAttributes e.writtenFlag := by
  unfold writtenFlag
  cases e.dnAttributes with
  | false => exact .absent
  | true => exact .present 0xFF

/-- The fields of an extensible assertion are written as elements with their tags, in order. -/
theorem Extensible.encode_eq (e : Extensible) :
    e.encode = (e.tagged ++ e.writtenFlag).flatMap fun p => element p.1 p.2 := by
  obtain ⟨matchType, rule, value, dnAttributes, substrings⟩ := e
  cases matchType <;> cases rule <;> cases dnAttributes <;>
    simp [encode, tagged, writtenFlag, optionalElement]

/-- What is written for a leaf is one of its encodings. -/
theorem Assertion.encodedAs_encode {a : Assertion} (hsize : a.encode.length < 2 ^ 32) :
    a.withoutView.EncodedAs a.encode := by
  cases a with
  | empty => exact .empty (isElement_element (by decide))
  | comparison op name value =>
    simp only [encode, List.length_append] at hsize
    have hname := length_lt_length_element octetStringTag (Utf8.encode name)
    have hvalue := length_lt_length_element octetStringTag value
    exact .comparison (isElement_element (by omega)) (isElement_element (by omega))
  | presence name => exact .presence name
  | substring name s =>
    simp only [encode, List.length_append] at hsize
    have hname := length_lt_length_element octetStringTag (Utf8.encode name)
    have hfragments := length_lt_length_element sequenceTag s.encode
    have hconcat : Concat IsTagged s.tagged s.encode := by
      rw [Substrings.encode_eq] at hfragments hsize ⊢
      exact concat_tagged (by omega)
    exact .substring (isElement_element (by omega)) hconcat (isElement_element (by omega))
  | extensible e =>
    have hconcat : Concat IsTagged (e.withoutView.tagged ++ e.writtenFlag) e.encode := by
      rw [encode, Extensible.encode_eq] at hsize
      rw [Extensible.encode_eq]
      exact concat_tagged hsize
    exact .extensible rfl e.flagField_writtenFlag hconcat

namespace Filter

/-- The content of an element that encodes a filter. -/
inductive ContentAs : Filter → Octets → Prop where
  | leaf {a : Assertion} {c : Octets} (hc : a.EncodedAs c) : ContentAs (leaf a) c
  | negation {f : Filter} {c : Octets} (hc : f.EncodedAs c) : ContentAs (negation f) c
  | junction {k : Connective} {fs : List Filter} {c : Octets} (hc : Concat EncodedAs fs c) :
    ContentAs (junction k fs) c

/-- An encoding is an element with the tag of the filter around a content. -/
theorem encodedAs_iff {f : Filter} {x : Octets} :
    f.EncodedAs x ↔ ∃ c, f.ContentAs c ∧ IsElement f.tag c x := by
  constructor
  · intro h
    cases h with
    | leaf hc hx => exact ⟨_, .leaf hc, hx⟩
    | negation hc hx => exact ⟨_, .negation hc, hx⟩
    | junction hc hx => exact ⟨_, .junction hc, hx⟩
  · rintro ⟨c, hc, hx⟩
    cases hc with
    | leaf hc => exact .leaf hc hx
    | negation hc => exact .negation hc hx
    | junction hc => exact .junction hc hx

theorem EncodedAs.ne_nil {f : Filter} {x : Octets} (hx : f.EncodedAs x) : x ≠ [] := by
  obtain ⟨c, _, hc⟩ := encodedAs_iff.1 hx
  exact hc.ne_nil

/-- An encoding starts with the tag of its filter. -/
theorem EncodedAs.head?_eq {f : Filter} {x : Octets} (hx : f.EncodedAs x) : x.head? = some f.tag := by
  obtain ⟨c, _, l, _, rfl⟩ := encodedAs_iff.1 hx
  rfl

/-- The first octet of an encoding tells its kind. -/
theorem EncodedAs.kind_eq {f g : Filter} {x y p q : Octets} (hx : f.EncodedAs x)
    (hy : g.EncodedAs y) (heq : x ++ p = y ++ q) : f.kind = g.kind := by
  obtain ⟨c, _, hc⟩ := encodedAs_iff.1 hx
  obtain ⟨d, _, hd⟩ := encodedAs_iff.1 hy
  exact Kind.tag_injective (hc.unique hd heq).1

/-- Octets that start with encodings of two filters start with one encoding of one filter. -/
theorem EncodedAs.unique {f g : Filter} {x y p q : Octets} (hx : f.EncodedAs x) (hy : g.EncodedAs y)
    (heq : x ++ p = y ++ q) : f = g ∧ x = y := by
  induction f generalizing g x y p q with
  | leaf a =>
    have hkind := hx.kind_eq hy heq
    cases g with
    | leaf b =>
      cases hx with
      | leaf hc hx =>
        cases hy with
        | leaf hd hy =>
          obtain ⟨_, hcontent, hxy, _⟩ := hx.unique hy heq
          rw [hc.unique hd hkind hcontent]
          exact ⟨rfl, hxy⟩
    | _ => cases a <;> cases hkind
  | negation f ih =>
    have hkind := hx.kind_eq hy heq
    cases g with
    | leaf b => cases b <;> cases hkind
    | negation g =>
      cases hx with
      | negation hc hx =>
        cases hy with
        | negation hd hy =>
          obtain ⟨_, rfl, hxy, _⟩ := hx.unique hy heq
          rw [(ih (p := []) (q := []) hc hd rfl).1]
          exact ⟨rfl, hxy⟩
    | junction c gs => cases hkind
  | junction k fs ih =>
    have hkind := hx.kind_eq hy heq
    cases g with
    | leaf b => cases b <;> cases hkind
    | negation g => cases hkind
    | junction k' gs =>
      cases hkind
      cases hx with
      | junction hc hx =>
        cases hy with
        | junction hd hy =>
          obtain ⟨_, rfl, hxy, _⟩ := hx.unique hy heq
          rw [hc.unique hd (fun _ _ h => h.ne_nil) fun f hf _ _ _ _ _ hf' hg heq => ih f hf hf' hg heq]
          exact ⟨rfl, hxy⟩

theorem EncodedAs.withoutView_eq {f : Filter} {x : Octets} (hx : f.EncodedAs x) :
    f.withoutView = f := by
  induction f generalizing x with
  | leaf a =>
    cases hx with
    | leaf hc _ => rw [withoutView, hc.withoutView_eq]
  | negation f ih =>
    cases hx with
    | negation hc _ => rw [withoutView, ih hc]
  | junction k fs ih =>
    cases hx with
    | junction hc _ =>
      have hclauses : ∀ f ∈ fs, f.withoutView = f := by
        intro f hf
        obtain ⟨y, hy, _⟩ := hc.exists_of_mem hf
        exact ih f hf hy
      rw [withoutView, withoutViewAll_eq, List.map_congr_left hclauses, List.map_id']

/-- What is written for a filter is one of its encodings, if four digits hold its size. -/
theorem encodedAs_toBer {f : Filter} (hsize : f.toBer.length < 2 ^ 32) :
    f.withoutView.EncodedAs f.toBer := by
  induction f with
  | leaf a =>
    rw [toBer] at hsize ⊢
    have hcontent := length_lt_length_element a.kind.tag a.encode
    refine .leaf (Assertion.encodedAs_encode (by omega)) ?_
    rw [Assertion.kind_withoutView]
    exact isElement_element (by omega)
  | negation f ih =>
    rw [toBer] at hsize ⊢
    have hcontent := length_lt_length_element Kind.negation.tag f.toBer
    exact .negation (ih (by omega)) (isElement_element (by omega))
  | junction k fs ih =>
    rw [toBer] at hsize ⊢
    have hcontent := length_lt_length_element (Kind.junction k).tag (toBerAll fs)
    refine .junction ?_ (isElement_element (by omega))
    rw [toBerAll_eq] at hcontent hsize ⊢
    rw [withoutViewAll_eq]
    refine Concat.map_flatMap fun f hf => ih f hf ?_
    have hclause := length_le_length_flatMap (g := toBer) hf
    omega

/-- Each level of a filter takes at least a header. -/
theorem EncodedAs.depth_le {f : Filter} {x : Octets} (hx : f.EncodedAs x) :
    2 * f.depth ≤ x.length := by
  induction f generalizing x with
  | leaf a =>
    cases hx with
    | leaf _ hx =>
      have hlength := hx.length_le
      rw [depth]
      omega
  | negation f ih =>
    cases hx with
    | negation hc hx =>
      have hlength := hx.length_le
      have hdepth := ih hc
      rw [depth]
      omega
  | junction k fs ih =>
    cases hx with
    | @junction _ _ c _ hc hx =>
      have hlength := hx.length_le
      have hdepth : depthAll fs ≤ c.length / 2 := by
        rw [depthAll_le_iff]
        intro f hf
        obtain ⟨y, hy, hle⟩ := hc.exists_of_mem hf
        have hclause := ih f hf hy
        omega
      rw [depth]
      omega

end Filter

end SearchFilter
