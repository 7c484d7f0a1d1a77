import Mathlib.Tactic.Common
import SearchFilter.Proofs.Filter.WrittenForm
import SearchFilter.Proofs.Pattern.Fragments

namespace SearchFilter

/-- Whether fragments stand in a text in order, with what lies before and behind them as asked for. -/
def FoundBetween (Before After : List Char → Prop) (fragments : List (List Char)) (text : List Char) : Prop :=
  ∃ before body after, text = before ++ body ++ after ∧ Spread fragments body ∧ Before before ∧ After after

/-- What may lie outside the fragments at an end. An empty fragment there takes no room, but the gap beside it
reaches to the end of the text, and a gap has no line break. -/
def Outside : Option Octets → List Char → Prop
  | none, _ => True
  | some [], rest => '\n' ∉ rest
  | some (_ :: _), rest => rest = []

/-- Behind an empty fragment at the start comes a gap and then the others. -/
theorem spread_nil_cons_iff {fragments : List (List Char)} {text : List Char} (hne : fragments ≠ []) :
    Spread ([] :: fragments) text ↔
      ∃ gap body, text = gap ++ body ∧ '\n' ∉ gap ∧ Spread fragments body := by
  obtain ⟨next, others, rfl⟩ := List.exists_cons_of_ne_nil hne
  exact spread_cons_iff

/-- In front of an empty fragment at the end come the others and then a gap. -/
theorem spread_concat_nil_iff {fragments : List (List Char)} {text : List Char} (hne : fragments ≠ []) :
    Spread (fragments ++ [[]]) text ↔
      ∃ body gap, text = body ++ gap ∧ '\n' ∉ gap ∧ Spread fragments body := by
  induction fragments generalizing text with
  | nil => exact absurd rfl hne
  | cons fragment others ih =>
    cases others with
    | nil =>
      simp only [List.singleton_append, spread_cons_iff, spread_single_iff]
      constructor
      · rintro ⟨gap, _, rfl, hgap, rfl⟩
        exact ⟨fragment, gap, by simp, hgap, rfl⟩
      · rintro ⟨_, gap, rfl, hgap, rfl⟩
        exact ⟨gap, [], by simp, hgap, rfl⟩
    | cons next others =>
      have hrest (rest : List Char) : Spread (next :: others ++ [[]]) rest ↔
          ∃ body last, rest = body ++ last ∧ '\n' ∉ last ∧ Spread (next :: others) body :=
        ih (List.cons_ne_nil _ _)
      simp only [List.cons_append, spread_cons_iff] at hrest ⊢
      constructor
      · rintro ⟨gap, rest, rfl, hgap, hspread⟩
        obtain ⟨body, last, rfl, hlast, hbody⟩ := (hrest rest).1 hspread
        exact ⟨fragment ++ gap ++ body, last, by simp, hlast, gap, body, rfl, hgap, hbody⟩
      · rintro ⟨_, last, rfl, hlast, gap, body, rfl, hgap, hbody⟩
        have hspread := (hrest (body ++ last)).2 ⟨body, last, rfl, hlast, hbody⟩
        exact ⟨gap, body ++ last, by simp, hgap, hspread⟩

section
variable {Before After : List Char → Prop} {fragments : List (List Char)} {text : List Char}

/-- An empty initial fragment at the start of a text may go if no line break comes before the others. Where
there are no others, nothing may be asked of the rest of the text. -/
theorem foundBetween_nil_cons_iff (hnone : fragments = [] → ∀ rest, After rest) :
    FoundBetween (· = []) After ([] :: fragments) text ↔
      FoundBetween ('\n' ∉ ·) After fragments text := by
  by_cases hne : fragments = []
  · subst hne
    refine iff_of_true ⟨[], [], text, rfl, .single [], rfl, hnone rfl text⟩ ?_
    exact ⟨[], [], text, rfl, .nil, List.not_mem_nil, hnone rfl text⟩
  constructor
  · rintro ⟨_, _, after, rfl, hspread, rfl, hafter⟩
    obtain ⟨gap, body, rfl, hgap, hbody⟩ := (spread_nil_cons_iff hne).1 hspread
    exact ⟨gap, body, after, by simp, hbody, hgap, hafter⟩
  · rintro ⟨before, body, after, rfl, hbody, hbefore, hafter⟩
    have hspread := (spread_nil_cons_iff hne).2 ⟨before, body, rfl, hbefore, hbody⟩
    exact ⟨[], before ++ body, after, by simp, hspread, rfl, hafter⟩

/-- The same at the end of a text. Where there are no other fragments, what is asked of the text before may
not depend on where that text is cut. -/
theorem foundBetween_concat_nil_iff
    (hnone : fragments = [] → ∀ before after, '\n' ∉ after → (Before (before ++ after) ↔ Before before)) :
    FoundBetween Before (· = []) (fragments ++ [[]]) text ↔
      FoundBetween Before ('\n' ∉ ·) fragments text := by
  by_cases hne : fragments = []
  · subst hne
    constructor
    · rintro ⟨before, _, _, rfl, hspread, hbefore, rfl⟩
      obtain rfl := spread_single_iff.1 hspread
      exact ⟨before, [], [], by simp, .nil, hbefore, List.not_mem_nil⟩
    · rintro ⟨before, _, after, rfl, hspread, hbefore, hafter⟩
      obtain rfl := spread_nil_iff.1 hspread
      exact ⟨before ++ after, [], [], by simp, .single [], (hnone rfl _ _ hafter).2 hbefore, rfl⟩
  constructor
  · rintro ⟨before, _, _, rfl, hspread, hbefore, rfl⟩
    obtain ⟨body, gap, rfl, hgap, hbody⟩ := (spread_concat_nil_iff hne).1 hspread
    exact ⟨before, body, gap, by simp, hbody, hbefore, hgap⟩
  · rintro ⟨before, body, after, rfl, hbody, hbefore, hafter⟩
    have hspread := (spread_concat_nil_iff hne).2 ⟨body, after, rfl, hafter, hbody⟩
    exact ⟨before, body ++ after, [], by simp, hspread, hbefore, rfl⟩

/-- Dropping an initial fragment that is empty. -/
theorem foundBetween_initial_iff {initial : Option Octets} (hnone : fragments = [] → ∀ rest, After rest) :
    FoundBetween (initial.isSome → · = []) After
        (initial.toList.map Utf8.decodeCharsLossy ++ fragments) text ↔
      FoundBetween (Outside initial) After
        ((initial.bind Item.nonempty?).toList.map Utf8.decodeCharsLossy ++ fragments) text := by
  rcases initial with _ | _ | ⟨b, bs⟩
  · simp [FoundBetween, Outside]
  · simp only [Option.isSome_some, forall_const]
    exact foundBetween_nil_cons_iff hnone
  · simp [FoundBetween, Outside, Item.nonempty?]

/-- Dropping a final one. -/
theorem foundBetween_final_iff {final : Option Octets}
    (hnone : fragments = [] → ∀ before after, '\n' ∉ after → (Before (before ++ after) ↔ Before before)) :
    FoundBetween Before (final.isSome → · = [])
        (fragments ++ final.toList.map Utf8.decodeCharsLossy) text ↔
      FoundBetween Before (Outside final)
        (fragments ++ (final.bind Item.nonempty?).toList.map Utf8.decodeCharsLossy) text := by
  rcases final with _ | _ | ⟨b, bs⟩
  · simp [FoundBetween, Outside]
  · simp only [Option.isSome_some, forall_const]
    have hkept : fragments ++ ((some []).bind Item.nonempty?).toList.map Utf8.decodeCharsLossy = fragments :=
      List.append_nil fragments
    rw [hkept]
    exact foundBetween_concat_nil_iff hnone
  · simp [FoundBetween, Outside, Item.nonempty?]

end

namespace Substrings

variable {s : Substrings} {text : List Char}

/-- Whether a text holds the fragments that are left when empty ones at the ends are dropped, without a line
break between them and an end from which one was dropped. -/
def FoundUnbroken (s : Substrings) (text : List Char) : Prop :=
  FoundBetween (Outside s.initial) (Outside s.final) (s.written.toList.map Utf8.decodeCharsLossy) text

/-- This is all that the empty fragments add to the others. -/
theorem foundIn_iff_foundUnbroken : s.FoundIn text ↔ s.FoundUnbroken text := by
  obtain ⟨initial, any, final⟩ := s
  have hinitial : (any ++ final.toList).map Utf8.decodeCharsLossy = [] →
      ∀ rest : List Char, final.isSome → rest = [] := by
    cases final <;> simp
  have hfinal : ((initial.bind Item.nonempty?).toList ++ any).map Utf8.decodeCharsLossy = [] →
      ∀ before after, '\n' ∉ after → (Outside initial (before ++ after) ↔ Outside initial before) := by
    rcases initial with _ | _ | ⟨b, bs⟩ <;> simp +contextual [Outside, Item.nonempty?]
  change FoundBetween (initial.isSome → · = []) (final.isSome → · = []) _ text ↔
    FoundBetween (Outside initial) (Outside final) _ text
  rw [toList, List.append_assoc, List.map_append, foundBetween_initial_iff hinitial, ← List.map_append,
    ← List.append_assoc, List.map_append, foundBetween_final_iff hfinal, ← List.map_append]
  rfl

instance decidableFoundUnbroken (s : Substrings) (text : List Char) : Decidable (s.FoundUnbroken text) :=
  decidable_of_iff _ foundIn_iff_foundUnbroken

/-- What is found with the empty fragments is found without them. -/
theorem FoundUnbroken.written (h : s.FoundUnbroken text) : s.written.FoundIn text := by
  obtain ⟨before, body, after, htext, hbody, hbefore, hafter⟩ := h
  have houtside {fragment : Option Octets} {rest : List Char} (hrest : Outside fragment rest)
      (hsome : (fragment.bind Item.nonempty?).isSome) : rest = [] := by
    rcases fragment with _ | _ | ⟨b, bs⟩
    · cases hsome
    · cases hsome
    · exact hrest
  exact ⟨before, body, after, htext, hbody, houtside hbefore, houtside hafter⟩

end Substrings

end SearchFilter
