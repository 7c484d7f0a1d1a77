import Mathlib.Tactic.Common
import SearchFilter.Pattern

namespace SearchFilter

/-- Texts that consist of fragments in order and gaps between them, without a line break in a gap. A
text fits a pattern where it holds one of these. -/
inductive Spread : List (List Char) → List Char → Prop where
  | nil : Spread [] []
  | single (fragment : List Char) : Spread [fragment] fragment
  | cons {fragment next gap rest : List Char} {others : List (List Char)} (hgap : '\n' ∉ gap)
    (hrest : Spread (next :: others) rest) :
    Spread (fragment :: next :: others) (fragment ++ gap ++ rest)

theorem spread_nil_iff {text : List Char} : Spread [] text ↔ text = [] := by
  constructor
  · rintro ⟨⟩
    rfl
  · rintro rfl
    exact .nil

theorem spread_single_iff {fragment text : List Char} : Spread [fragment] text ↔ text = fragment := by
  constructor
  · rintro ⟨⟩
    rfl
  · rintro rfl
    exact .single text

/-- Behind a fragment comes a gap without a line break, and then the other fragments. -/
theorem spread_cons_iff {fragment next text : List Char} {others : List (List Char)} :
    Spread (fragment :: next :: others) text ↔
      ∃ gap rest, text = fragment ++ gap ++ rest ∧ '\n' ∉ gap ∧ Spread (next :: others) rest := by
  constructor
  · rintro (_ | _ | ⟨hgap, hrest⟩)
    exact ⟨_, _, rfl, hgap, hrest⟩
  · rintro ⟨gap, rest, rfl, hgap, hrest⟩
    exact .cons hgap hrest

/-- Whether a text holds the fragments of an assertion in order: an initial one at the start, a final
one at the end, and no line break between two of them. Malformed octets count as replacement
characters. -/
def Substrings.FoundIn (s : Substrings) (text : List Char) : Prop :=
  ∃ before body after, text = before ++ body ++ after ∧
    Spread (s.toList.map Utf8.decodeCharsLossy) body ∧
    (s.initial.isSome → before = []) ∧ (s.final.isSome → after = [])

namespace Pattern

/-- The same of the fragments of a pattern. -/
def FoundIn (p : Pattern) (text : List Char) : Prop :=
  ∃ before body after, text = before ++ body ++ after ∧ Spread p.fragments body ∧
    (p.initial.isSome → before = []) ∧ (p.final.isSome → after = [])

theorem foundIn_ofSubstrings {s : Substrings} {text : List Char} :
    (ofSubstrings s).FoundIn text ↔ s.FoundIn text := by
  obtain ⟨initial, any, final⟩ := s
  cases initial <;> cases final <;>
    simp [FoundIn, Substrings.FoundIn, ofSubstrings, fragments, Substrings.toList]

/-- Whether each mark says of its end piece of a text, from the whole text down to nothing, if the
end piece has the property. The search goes through the end pieces from behind, and each of its
steps makes marks from the ones before it. -/
inductive Marks (P : List Char → Prop) : List Char → List Bool → Prop where
  | nil {mark : Bool} (h : mark = true ↔ P []) : Marks P [] [mark]
  | cons {c : Char} {rest : List Char} {mark : Bool} {marks : List Bool}
    (h : mark = true ↔ P (c :: rest)) (hrest : Marks P rest marks) : Marks P (c :: rest) (mark :: marks)

namespace Marks

variable {P Q : List Char → Prop} {text : List Char} {marks : List Bool}

theorem congr (h : Marks P text marks) (hPQ : ∀ rest, P rest ↔ Q rest) : Marks Q text marks := by
  induction h with
  | nil h => exact .nil (h.trans (hPQ _))
  | cons h _ ih => exact .cons (h.trans (hPQ _)) ih

theorem headD_iff (h : Marks P text marks) : marks.headD false = true ↔ P text := by
  cases h with
  | nil h => exact h
  | cons h _ => exact h

/-- The marks from one place on are those of the end pieces from there on. -/
theorem drop (h : Marks P text marks) {n : Nat} (hn : n ≤ text.length) :
    Marks P (text.drop n) (marks.drop n) := by
  induction n generalizing text marks with
  | zero => exact h
  | succ n ih =>
    cases h with
    | nil _ => cases hn
    | cons _ hrest => exact ih hrest (Nat.le_of_succ_le_succ hn)

/-- Some end piece is marked just where the text can be cut so that the property holds of what
follows. -/
theorem any_iff (h : Marks P text marks) :
    marks.any id = true ↔ ∃ before rest, text = before ++ rest ∧ P rest := by
  induction h with
  | nil h =>
    simp only [List.any_cons, List.any_nil, Bool.or_false, id_eq, h]
    constructor
    · exact fun h => ⟨[], [], rfl, h⟩
    · rintro ⟨before, rest, htext, hP⟩
      obtain ⟨rfl, rfl⟩ := List.append_eq_nil_iff.1 htext.symm
      exact hP
  | @cons c rest mark marks h _ ih =>
    simp only [List.any_cons, id_eq, Bool.or_eq_true, h, ih]
    constructor
    · rintro (hP | ⟨before, rest, rfl, hP⟩)
      · exact ⟨[], _, rfl, hP⟩
      · exact ⟨c :: before, rest, rfl, hP⟩
    · rintro ⟨before, rest', htext, hP⟩
      cases before with
      | nil =>
        obtain rfl := htext
        exact .inl hP
      | cons d before =>
        obtain ⟨rfl, rfl⟩ := List.cons.inj htext
        exact .inr ⟨before, rest', rfl, hP⟩

/-- A fragment stands at the start of an end piece with a marked one behind it. -/
theorem startsWith {next : List Bool} (h : Marks P text next) (fragment : List Char) :
    Marks (fun rest => ∃ after, rest = fragment ++ after ∧ P after) text
      (startsWith fragment text next) := by
  induction h with
  | nil h =>
    refine .nil ?_
    rw [Bool.and_eq_true, List.isEmpty_iff]
    constructor
    · rintro ⟨rfl, hmark⟩
      exact ⟨[], rfl, h.1 hmark⟩
    · rintro ⟨after, hafter, hP⟩
      obtain ⟨rfl, rfl⟩ := List.append_eq_nil_iff.1 hafter.symm
      exact ⟨rfl, h.2 hP⟩
  | @cons c rest mark marks h hrest ih =>
    refine .cons ?_ ih
    rw [Bool.and_eq_true, List.isPrefixOf_iff_prefix]
    constructor
    · rintro ⟨⟨after, hafter⟩, hmark⟩
      have hdrop := (Marks.cons h hrest).drop (n := fragment.length) (by simp [← hafter])
      rw [hdrop.headD_iff, ← hafter, List.drop_left] at hmark
      exact ⟨after, hafter.symm, hmark⟩
    · rintro ⟨after, hafter, hP⟩
      have hdrop := (Marks.cons h hrest).drop (n := fragment.length) (by simp [hafter])
      rw [hdrop.headD_iff, hafter, List.drop_left]
      exact ⟨⟨after, rfl⟩, hP⟩

/-- A gap stands at the start of an end piece with a marked one behind it. -/
theorem afterGap {next : List Bool} (h : Marks P text next) :
    Marks (fun rest => ∃ gap after, rest = gap ++ after ∧ '\n' ∉ gap ∧ P after) text
      (afterGap text next) := by
  induction h with
  | nil h =>
    refine .nil ?_
    constructor
    · exact fun hmark => ⟨[], [], rfl, List.not_mem_nil, h.1 hmark⟩
    · rintro ⟨gap, after, hafter, _, hP⟩
      obtain ⟨rfl, rfl⟩ := List.append_eq_nil_iff.1 hafter.symm
      exact h.2 hP
  | @cons c rest mark marks h _ ih =>
    refine .cons ?_ ih
    rw [List.headD_cons, Bool.or_eq_true, Bool.and_eq_true, h, bne_iff_ne, List.tail_cons, ih.headD_iff]
    constructor
    · rintro (hP | ⟨hc, gap, after, rfl, hgap, hP⟩)
      · exact ⟨[], _, rfl, List.not_mem_nil, hP⟩
      · refine ⟨c :: gap, after, rfl, ?_, hP⟩
        rw [List.mem_cons, not_or]
        exact ⟨hc.symm, hgap⟩
    · rintro ⟨gap, after, hafter, hgap, hP⟩
      cases gap with
      | nil =>
        obtain rfl := hafter
        exact .inl hP
      | cons d gap =>
        obtain ⟨rfl, rfl⟩ := List.cons.inj hafter
        rw [List.mem_cons, not_or] at hgap
        exact .inr ⟨Ne.symm hgap.1, gap, after, rfl, hgap.2, hP⟩

/-- The fragments stand in order at the start of an end piece, with a marked one behind them. -/
theorem chain {stop : List Bool} (h : Marks P text stop) (fragments : List (List Char)) :
    Marks (fun rest => ∃ body after, rest = body ++ after ∧ Spread fragments body ∧ P after) text
      (chain text stop fragments) := by
  induction fragments with
  | nil =>
    refine h.congr fun rest => ?_
    simp [spread_nil_iff]
  | cons fragment others ih =>
    cases others with
    | nil =>
      refine (h.startsWith fragment).congr fun rest => ?_
      simp [spread_single_iff]
    | cons next others =>
      refine (ih.afterGap.startsWith fragment).congr fun rest => ?_
      simp only [spread_cons_iff]
      constructor
      · rintro ⟨_, rfl, gap, _, rfl, hgap, body, after, rfl, hbody, hP⟩
        exact ⟨fragment ++ gap ++ body, after, by simp, ⟨gap, body, rfl, hgap, hbody⟩, hP⟩
      · rintro ⟨_, after, rfl, ⟨gap, body, rfl, hgap, hbody⟩, hP⟩
        exact ⟨gap ++ (body ++ after), by simp, gap, body ++ after, rfl, hgap, body, after, rfl, hbody, hP⟩

end Marks

/-- A pattern may end anywhere, and only with the text if it has a final fragment. -/
theorem marks_mayStop (p : Pattern) (text : List Char) :
    Marks (fun rest => p.final.isSome → rest = []) text (p.mayStop text) := by
  rw [mayStop]
  cases p.final with
  | none =>
    induction text with
    | nil => exact .nil (by simp)
    | cons c rest ih => exact .cons (by simp) ih
  | some final =>
    induction text with
    | nil => exact .nil (by simp)
    | cons c rest ih => exact .cons (by simp) ih

/-- A text fits a pattern just where the fragments are found in it. -/
theorem fits_iff {p : Pattern} {text : List Char} : p.fits text = true ↔ p.FoundIn text := by
  have hmarks := (p.marks_mayStop text).chain p.fragments
  rw [fits, FoundIn]
  cases p.initial with
  | none =>
    dsimp only
    rw [hmarks.any_iff]
    constructor
    · rintro ⟨before, _, rfl, body, after, rfl, hbody, hafter⟩
      exact ⟨before, body, after, by simp, hbody, by simp, hafter⟩
    · rintro ⟨before, body, after, rfl, hbody, -, hafter⟩
      exact ⟨before, body ++ after, by simp, body, after, rfl, hbody, hafter⟩
  | some initial =>
    dsimp only
    rw [hmarks.headD_iff]
    constructor
    · rintro ⟨body, after, rfl, hbody, hafter⟩
      exact ⟨[], body, after, rfl, hbody, fun _ => rfl, hafter⟩
    · rintro ⟨before, body, after, rfl, hbody, hbefore, hafter⟩
      obtain rfl := hbefore rfl
      exact ⟨body, after, rfl, hbody, hafter⟩

end Pattern

instance Substrings.decidableFoundIn (s : Substrings) (text : List Char) : Decidable (s.FoundIn text) :=
  decidable_of_iff _ (Pattern.fits_iff.trans Pattern.foundIn_ofSubstrings)

end SearchFilter
