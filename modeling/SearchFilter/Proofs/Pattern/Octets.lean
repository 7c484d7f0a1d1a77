import Mathlib.Tactic.Common
import SearchFilter.Proofs.Octets.Alignment
import SearchFilter.Proofs.Pattern.Fragments

namespace SearchFilter

/-- Octets that consist of pieces in order and gaps of some kind between them. -/
inductive Spaced (Gap : Octets → Prop) : List Octets → Octets → Prop where
  | nil : Spaced Gap [] []
  | single (piece : Octets) : Spaced Gap [piece] piece
  | cons {piece next gap rest : Octets} {others : List Octets} (hgap : Gap gap)
    (hrest : Spaced Gap (next :: others) rest) :
    Spaced Gap (piece :: next :: others) (piece ++ gap ++ rest)

/-- A gap of any kind. -/
def AnyGap (_ : Octets) : Prop := True

/-- A gap without a line break. -/
def Unbroken (gap : Octets) : Prop := 0x0A ∉ gap

/-- Whether a value holds the fragments of an assertion in order: an initial one at the start, a final one at
the end, and gaps of some kind between them. -/
def Substrings.HeldIn (Gap : Octets → Prop) (s : Substrings) (value : Octets) : Prop :=
  ∃ before body after, value = before ++ body ++ after ∧ Spaced Gap s.toList body ∧
    (s.initial.isSome → before = []) ∧ (s.final.isSome → after = [])

section
variable {Gap Gap' : Octets → Prop}

/-- Gaps of one kind may be taken for gaps of another, if they are so where they stand. -/
theorem Spaced.imp {pieces : List Octets} {body : Octets} (h : Spaced Gap pieces body)
    (himp : ∀ gap, Gap gap → gap ⊆ body → Gap' gap) : Spaced Gap' pieces body := by
  induction h with
  | nil => exact .nil
  | single piece => exact .single piece
  | cons hgap _ ih =>
    refine .cons (himp _ hgap (by simp)) (ih fun gap hgap hsubset => himp gap hgap ?_)
    exact fun b hb => List.mem_append_right _ (hsubset hb)

theorem Spaced.exists_append {piece body : Octets} {others : List Octets}
    (h : Spaced Gap (piece :: others) body) : ∃ tail, body = piece ++ tail := by
  cases h with
  | single => exact ⟨[], (List.append_nil _).symm⟩
  | cons _ _ => exact ⟨_, List.append_assoc _ _ _⟩

theorem Spaced.subset {pieces : List Octets} {body piece : Octets} (h : Spaced Gap pieces body)
    (hpiece : piece ∈ pieces) : piece ⊆ body := by
  induction h with
  | nil => cases hpiece
  | single =>
    rw [List.mem_singleton.1 hpiece]
    exact List.Subset.refl _
  | cons _ _ ih =>
    rcases List.mem_cons.1 hpiece with rfl | hpiece
    · simp
    · exact fun b hb => List.mem_append_right _ (ih hpiece hb)

namespace Substrings

variable {s : Substrings} {value : Octets}

/-- A value that holds fragments with gaps of one kind holds them with gaps of any kind that these
are. -/
theorem HeldIn.imp (h : s.HeldIn Gap value) (himp : ∀ gap, Gap gap → gap ⊆ value → Gap' gap) :
    s.HeldIn Gap' value := by
  obtain ⟨before, body, after, rfl, hbody, hends⟩ := h
  refine ⟨before, body, after, rfl, hbody.imp fun gap hgap hsubset => himp gap hgap ?_, hends⟩
  exact fun b hb => List.mem_append_left _ (List.mem_append_right _ (hsubset hb))

/-- A single fragment leaves no gap between two. -/
theorem HeldIn.of_length_le_one (hone : s.toList.length ≤ 1) (h : s.HeldIn Gap value) :
    s.HeldIn Gap' value := by
  obtain ⟨before, body, after, hvalue, hbody, hends⟩ := h
  refine ⟨before, body, after, hvalue, ?_, hends⟩
  generalize s.toList = pieces at hone hbody
  cases hbody with
  | nil => exact .nil
  | single => exact .single _
  | cons => simp at hone

/-- A value has every octet of the fragments it holds. -/
theorem HeldIn.subset (h : s.HeldIn Gap value) {bs : Octets} (hbs : bs ∈ s.toList) : bs ⊆ value := by
  obtain ⟨before, body, after, rfl, hbody, _⟩ := h
  exact fun b hb => List.mem_append_left _ (List.mem_append_right _ (hbody.subset hbs hb))

/-- Where there is no line break, or no gap, it does not matter if gaps may have one. -/
theorem heldIn_unbroken_iff (h : 0x0A ∉ value ∨ s.toList.length ≤ 1) :
    s.HeldIn Unbroken value ↔ s.HeldIn AnyGap value := by
  constructor
  · exact fun hheld => hheld.imp fun _ _ _ => trivial
  · intro hheld
    rcases h with hnone | hone
    · exact hheld.imp fun gap _ hsubset hmem => hnone (hsubset hmem)
    · exact hheld.of_length_le_one hone

end Substrings

end

/-- The octets of the text that octets are shown as. -/
def Octets.repaired (bs : Octets) : Octets :=
  Utf8.encodeChars (Utf8.decodeCharsLossy bs)

/-- The fragments with replacement characters for what is malformed in them. -/
def Substrings.repaired (s : Substrings) : Substrings where
  initial := s.initial.map Octets.repaired
  any := s.any.map Octets.repaired
  final := s.final.map Octets.repaired

theorem Octets.repaired_of_isText {bs : Octets} (h : bs.IsText) : bs.repaired = bs := by
  have hencode := eq_encode_of_isText h
  rw [Utf8.encode, Utf8.decodeLossy, String.toList_ofList] at hencode
  exact hencode.symm

theorem Substrings.toList_repaired (s : Substrings) : s.repaired.toList = s.toList.map Octets.repaired := by
  obtain ⟨initial, any, final⟩ := s
  cases initial <;> cases final <;> simp [repaired, toList]

/-- Fragments that are all texts are not changed by being repaired. -/
theorem Substrings.repaired_of_isText {s : Substrings} (h : ∀ bs ∈ s.toList, bs.IsText) : s.repaired = s := by
  have hsame (bs : Octets) (hbs : bs ∈ s.toList) : bs.repaired = bs := Octets.repaired_of_isText (h bs hbs)
  obtain ⟨initial, any, final⟩ := s
  simp only [toList, List.mem_append, Option.mem_toList] at hsame
  have hinitial : initial.map Octets.repaired = initial :=
    Option.map_congr (g := id) (fun bs hbs => hsame bs (.inl (.inl hbs))) |>.trans Option.map_id_apply
  have hany : any.map Octets.repaired = any :=
    (List.map_congr_left (g := id) fun bs hbs => hsame bs (.inl (.inr hbs))).trans (List.map_id _)
  have hfinal : final.map Octets.repaired = final :=
    Option.map_congr (g := id) (fun bs hbs => hsame bs (.inr hbs)) |>.trans Option.map_id_apply
  rw [repaired, hinitial, hany, hfinal]

/-- The octet of a line break stands for a line break and for nothing else. -/
theorem unbroken_encodeChars_iff {cs : List Char} : Unbroken (Utf8.encodeChars cs) ↔ '\n' ∉ cs :=
  not_congr (Utf8.mem_encodeChars_iff (by decide))

/-- Where fragments stand in a text, their octets stand in its octets. -/
theorem Spread.spaced {fragments : List (List Char)} {text : List Char} (h : Spread fragments text) :
    Spaced Unbroken (fragments.map Utf8.encodeChars) (Utf8.encodeChars text) := by
  induction h with
  | nil => exact .nil
  | single fragment => exact .single _
  | cons hgap _ ih =>
    rw [Utf8.encodeChars_append, Utf8.encodeChars_append]
    exact .cons (unbroken_encodeChars_iff.2 hgap) ih

/-- Whether the octets of fragments, behind a gap in the octets of a text, are always those of fragments in
the text. -/
def Aligned (fragments : List (List Char)) : Prop :=
  ∀ (text : List Char) (gap body after : Octets),
    Spaced Unbroken (fragments.map Utf8.encodeChars) body → Utf8.encodeChars text = gap ++ (body ++ after) →
    ∃ before spread rest, text = before ++ spread ++ rest ∧ Spread fragments spread ∧
      (Unbroken gap → '\n' ∉ before) ∧ (after = [] → rest = [])

theorem encodeChars_eq_nil_iff {cs : List Char} : Utf8.encodeChars cs = [] ↔ cs = [] := by
  cases cs with
  | nil => exact ⟨fun _ => rfl, fun _ => rfl⟩
  | cons c cs => simp [Utf8.encodeChars_cons, String.utf8EncodeChar_ne_nil]

/-- At the start of a text the first fragment is found as it is. -/
theorem Aligned.at_start {fragment : List Char} {others : List (List Char)} (h : Aligned others)
    {text : List Char} {body after : Octets}
    (hbody : Spaced Unbroken ((fragment :: others).map Utf8.encodeChars) body)
    (htext : Utf8.encodeChars text = body ++ after) :
    ∃ spread rest, text = spread ++ rest ∧ Spread (fragment :: others) spread ∧
      (after = [] → rest = []) := by
  cases others with
  | nil =>
    cases hbody
    obtain ⟨rest, rfl, hafter⟩ := Utf8.exists_of_encodeChars_eq_append htext
    exact ⟨fragment, rest, rfl, .single fragment, fun hnil => encodeChars_eq_nil_iff.1 (hafter ▸ hnil)⟩
  | cons next others =>
    rw [List.map_cons, List.map_cons] at hbody
    cases hbody with
    | cons hgap hrest =>
      rw [List.append_assoc, List.append_assoc] at htext
      obtain ⟨behind, rfl, hbehind⟩ := Utf8.exists_of_encodeChars_eq_append htext
      obtain ⟨gap, spread, rest, rfl, hspread, hunbroken, hend⟩ := h _ _ _ _ hrest hbehind.symm
      exact ⟨fragment ++ gap ++ spread, rest, by simp, .cons (hunbroken hgap) hspread, hend⟩

theorem aligned_nil : Aligned [] := by
  intro text gap body after hbody htext
  cases hbody
  rw [List.nil_append] at htext
  by_cases hafter : after = []
  · rw [hafter, List.append_nil] at htext
    exact ⟨text, [], [], by simp, .nil, fun hgap => unbroken_encodeChars_iff.1 (htext ▸ hgap), fun _ => rfl⟩
  · exact ⟨[], [], text, rfl, .nil, fun _ => List.not_mem_nil, fun hnil => absurd hnil hafter⟩

/-- A fragment that is not empty stands where characters of the text do. An empty one may stand within a
character, but then it may as well stand right before the next fragment. -/
theorem Aligned.cons {others : List (List Char)} (h : Aligned others) (fragment : List Char) :
    Aligned (fragment :: others) := by
  intro text gap body after hbody htext
  by_cases hempty : fragment = []
  · subst hempty
    cases others with
    | nil =>
      cases hbody
      obtain ⟨before, spread, rest, rfl, hspread, hends⟩ := aligned_nil _ _ [] _ .nil htext
      obtain rfl := spread_nil_iff.1 hspread
      exact ⟨before, [], rest, rfl, .single [], hends⟩
    | cons next others =>
      rw [List.map_cons, List.map_cons] at hbody
      cases hbody with
      | @cons _ _ gap' rest' _ hgap hrest =>
        have htext' : Utf8.encodeChars text = (gap ++ gap') ++ (rest' ++ after) := by
          rw [htext]
          simp [Utf8.encodeChars]
        obtain ⟨before, spread, rest, rfl, hspread, hunbroken, hend⟩ := h _ _ _ _ hrest htext'
        refine ⟨before, [] ++ [] ++ spread, rest, rfl, .cons List.not_mem_nil hspread, fun hbefore => ?_, hend⟩
        exact hunbroken fun hmem => (List.mem_append.1 hmem).elim hbefore hgap
  · obtain ⟨tail, rfl⟩ := hbody.exists_append
    rw [List.append_assoc] at htext
    obtain ⟨before, behind, rfl, hgap, hbehind⟩ := Utf8.exists_of_encodeChars_eq hempty htext
    have hstart : Utf8.encodeChars (fragment ++ behind) = Utf8.encodeChars fragment ++ tail ++ after := by
      rw [Utf8.encodeChars_append, ← hbehind, List.append_assoc]
    obtain ⟨spread, rest, hfound, hspread, hend⟩ := h.at_start hbody hstart
    refine ⟨before, spread, rest, by rw [hfound, List.append_assoc], hspread, fun hbefore => ?_, hend⟩
    exact unbroken_encodeChars_iff.1 (hgap ▸ hbefore)

/-- The gaps between the octets of fragments can always be cut where characters end. -/
theorem aligned (fragments : List (List Char)) : Aligned fragments := by
  induction fragments with
  | nil => exact aligned_nil
  | cons fragment others ih => exact ih.cons fragment

/-- A text holds the fragments of an assertion just where its octets do. -/
theorem Substrings.heldIn_encodeChars_iff {s : Substrings} {text : List Char} :
    s.repaired.HeldIn Unbroken (Utf8.encodeChars text) ↔ s.FoundIn text := by
  have hpieces : s.repaired.toList = (s.toList.map Utf8.decodeCharsLossy).map Utf8.encodeChars := by
    rw [toList_repaired, List.map_map]
    rfl
  have hinitial : s.repaired.initial.isSome = s.initial.isSome := Option.isSome_map
  have hfinal : s.repaired.final.isSome = s.final.isSome := Option.isSome_map
  rw [HeldIn, FoundIn, hpieces, hinitial, hfinal]
  constructor
  · rintro ⟨before, body, after, htext, hbody, hbefore, hafter⟩
    rw [List.append_assoc] at htext
    cases hstart : s.initial with
    | none =>
      obtain ⟨before', spread, rest, rfl, hspread, _, hend⟩ := aligned _ _ _ _ _ hbody htext
      exact ⟨before', spread, rest, rfl, hspread, by simp, fun h => hend (hafter h)⟩
    | some initial =>
      obtain rfl := hbefore (by rw [hstart]; rfl)
      obtain ⟨first, others, hlist⟩ : ∃ first others, s.toList.map Utf8.decodeCharsLossy = first :: others :=
        ⟨_, _, by rw [toList, hstart]; rfl⟩
      rw [hlist] at hbody ⊢
      obtain ⟨spread, rest, rfl, hspread, hend⟩ := (aligned others).at_start hbody htext
      exact ⟨[], spread, rest, rfl, hspread, fun _ => rfl, fun h => hend (hafter h)⟩
  · rintro ⟨before, body, after, rfl, hbody, hbefore, hafter⟩
    refine ⟨Utf8.encodeChars before, Utf8.encodeChars body, Utf8.encodeChars after, ?_, hbody.spaced,
      fun h => ?_, fun h => ?_⟩
    · rw [Utf8.encodeChars_append, Utf8.encodeChars_append]
    · rw [hbefore h]
      rfl
    · rw [hafter h]
      rfl

end SearchFilter
