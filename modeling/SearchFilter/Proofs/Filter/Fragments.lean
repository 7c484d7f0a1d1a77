import Mathlib.Tactic.Common
import SearchFilter.Filter.Item
import SearchFilter.Proofs.Text.Value

namespace SearchFilter.Item

/-- A text without a closing parenthesis is read as the value it denotes. -/
theorem readValue_eq_ok_iff {text : List Char} {bs : Octets} (hclose : ')' ∉ text) :
    readValue text = .ok bs ↔ Escaped.Denotes text bs := by
  unfold readValue
  constructor
  · intro h
    split_ifs at h with hopen
    exact Escaped.denotes_of_read h hopen hclose
  · intro h
    rw [if_neg h.notMem_paren.1]
    exact Escaped.read_of_denotes h

/-- Pieces that are joined by separators, and hold none, are found again. -/
theorem cut_join {separator : Char} {first : List Char} {others : List (List Char)}
    (hfree : ∀ piece ∈ first :: others, separator ∉ piece) :
    cut separator (first ++ others.flatMap (separator :: ·)) = (first, others) := by
  induction others generalizing first with
  | nil =>
    rw [List.flatMap_nil, List.append_nil]
    have hfirst := hfree first List.mem_cons_self
    clear hfree
    induction first with
    | nil => rfl
    | cons c first ih =>
      rw [List.mem_cons, not_or] at hfirst
      rw [cut, ih hfirst.2]
      exact if_neg (Ne.symm hfirst.1)
  | cons piece others ihs =>
    have hfirst := hfree first List.mem_cons_self
    have hothers := ihs fun p hp => hfree p (List.mem_cons_of_mem _ hp)
    rw [List.flatMap_cons, List.cons_append]
    clear hfree
    induction first with
    | nil =>
      rw [List.nil_append, cut, hothers]
      exact if_pos rfl
    | cons c first ih =>
      rw [List.mem_cons, not_or] at hfirst
      rw [List.cons_append, cut, ih hfirst.2]
      exact if_neg (Ne.symm hfirst.1)

/-- The pieces of a text are free of separators, and joined by separators they give the text. -/
theorem cut_spec (separator : Char) (text : List Char) :
    text = (cut separator text).1 ++ (cut separator text).2.flatMap (separator :: ·) ∧
      ∀ piece ∈ (cut separator text).1 :: (cut separator text).2, separator ∉ piece := by
  induction text with
  | nil => simp [cut]
  | cons c text ih =>
    rw [cut]
    generalize cut separator text = pieces at ih ⊢
    obtain ⟨first, others⟩ := pieces
    obtain ⟨htext, hfree⟩ := ih
    dsimp only at htext hfree ⊢
    by_cases hc : c = separator
    · rw [if_pos hc]
      refine ⟨?_, ?_⟩
      · rw [List.flatMap_cons, List.nil_append, List.cons_append, hc, ← htext]
      · intro piece hpiece
        rcases List.mem_cons.1 hpiece with rfl | hpiece
        · exact List.not_mem_nil
        · exact hfree piece hpiece
    · rw [if_neg hc]
      refine ⟨?_, ?_⟩
      · rw [List.cons_append, ← htext]
      · intro piece hpiece
        rcases List.mem_cons.1 hpiece with rfl | hpiece
        · rw [List.mem_cons, not_or]
          exact ⟨Ne.symm hc, hfree first List.mem_cons_self⟩
        · exact hfree piece (List.mem_cons_of_mem _ hpiece)

/-- Cutting a text is finding the pieces without separators that it is joined from. -/
theorem cut_eq_iff {separator : Char} {text first : List Char} {others : List (List Char)} :
    cut separator text = (first, others) ↔
      text = first ++ others.flatMap (separator :: ·) ∧
        ∀ piece ∈ first :: others, separator ∉ piece := by
  constructor
  · intro h
    have hspec := cut_spec separator text
    rwa [h] at hspec
  · rintro ⟨rfl, hfree⟩
    exact cut_join hfree

/-- Behind a separator the pieces are those that a separator stands before. -/
theorem cut_eq_of_flatMap {separator : Char} {text : List Char} {pieces : List (List Char)}
    (hne : pieces ≠ []) (hfree : ∀ piece ∈ pieces, separator ∉ piece)
    (htext : separator :: text = pieces.flatMap (separator :: ·)) :
    (cut separator text).1 :: (cut separator text).2 = pieces := by
  obtain ⟨first, others, rfl⟩ := List.exists_cons_of_ne_nil hne
  rw [List.flatMap_cons, List.cons_append, List.cons.injEq] at htext
  rw [cut_eq_iff.2 ⟨htext.2, hfree⟩]

/-- A text with wildcards and the fragments between them. Each fragment is a value of its own, and an
empty first or last one is absent. -/
inductive Fragments : List Char → Substrings → Prop where
  | intro {first last : List Char} {others : List (List Char)} {initial final : Octets}
    {any : List Octets} (hfree : ∀ piece ∈ first :: (others ++ [last]), '*' ∉ piece)
    (hfirst : Escaped.Denotes first initial) (hothers : List.Forall₂ Escaped.Denotes others any)
    (hlast : Escaped.Denotes last final) :
    Fragments (first ++ others.flatMap ('*' :: ·) ++ '*' :: last)
      { initial := nonempty? initial, any, final := nonempty? final }

theorem Fragments.mem_star {text : List Char} {s : Substrings} (h : Fragments text s) : '*' ∈ text := by
  cases h
  simp

theorem Fragments.notMem_paren {text : List Char} {s : Substrings} (h : Fragments text s) :
    '(' ∉ text ∧ ')' ∉ text := by
  have hpieces {pieces : List (List Char)} {values : List Octets}
      (h : List.Forall₂ Escaped.Denotes pieces values) :
      ∀ piece ∈ pieces, '(' ∉ piece ∧ ')' ∉ piece := by
    induction h with
    | nil => simp
    | cons hvalue _ ih =>
      intro piece hpiece
      rcases List.mem_cons.1 hpiece with rfl | hpiece
      · exact hvalue.notMem_paren
      · exact ih piece hpiece
  cases h with
  | intro _ hfirst hothers hlast =>
    have hothers := hpieces hothers
    simp only [List.mem_append, List.mem_cons, List.mem_flatMap, not_or]
    refine ⟨⟨⟨hfirst.notMem_paren.1, ?_⟩, by decide, hlast.notMem_paren.1⟩,
      ⟨hfirst.notMem_paren.2, ?_⟩, by decide, hlast.notMem_paren.2⟩
    · rintro ⟨piece, hpiece, heq | hmem⟩
      · cases heq
      · exact (hothers piece hpiece).1 hmem
    · rintro ⟨piece, hpiece, heq | hmem⟩
      · cases heq
      · exact (hothers piece hpiece).2 hmem

private theorem forall₂_readValue_iff {pieces : List (List Char)} {values : List Octets}
    (hclose : ∀ piece ∈ pieces, ')' ∉ piece) :
    List.Forall₂ (fun piece value => readValue piece = .ok value) pieces values ↔
      List.Forall₂ Escaped.Denotes pieces values := by
  induction pieces generalizing values with
  | nil =>
    constructor <;>
    · rintro ⟨⟩
      exact .nil
  | cons piece pieces ih =>
    have hpiece := hclose piece List.mem_cons_self
    have hpieces := fun p hp => hclose p (List.mem_cons_of_mem _ hp)
    constructor
    · rintro (_ | ⟨hvalue, hvalues⟩)
      exact .cons ((readValue_eq_ok_iff hpiece).1 hvalue) ((ih hpieces).1 hvalues)
    · rintro (_ | ⟨hvalue, hvalues⟩)
      exact .cons ((readValue_eq_ok_iff hpiece).2 hvalue) ((ih hpieces).2 hvalues)

/-- Fragments are read from the pieces between wildcards, each of which is a value of its own. -/
theorem readSubstrings_eq_ok_iff_exists {text : List Char} {s : Substrings} :
    readSubstrings text = .ok s ↔ ∃ first others last initial any final,
      cut '*' text = (first, others ++ [last]) ∧ readValue first = .ok initial ∧
        List.Forall₂ (fun piece value => readValue piece = .ok value) others any ∧
        readValue last = .ok final ∧
        s = { initial := nonempty? initial, any, final := nonempty? final } := by
  have hread {first last : List Char} {others : List (List Char)}
      (hcut : cut '*' text = (first, others ++ [last])) :
      readSubstrings text = .ok s ↔ ∃ initial, readValue first = .ok initial ∧
        ∃ final, readValue last = .ok final ∧
        ∃ any, List.Forall₂ (fun piece value => readValue piece = .ok value) others any ∧
          { initial := nonempty? initial, any, final := nonempty? final } = s := by
    simp only [readSubstrings, hcut, List.getLast?_concat, List.dropLast_concat, Except.bind_eq_ok_iff,
      Except.pure_eq_ok_iff, Except.mapM_eq_ok_iff]
  constructor
  · intro h
    generalize hcut : cut '*' text = pieces
    obtain ⟨first, others⟩ := pieces
    rcases List.eq_nil_or_concat others with rfl | ⟨others, last, rfl⟩
    · rw [readSubstrings, hcut] at h
      cases h
    · rw [List.concat_eq_append] at hcut ⊢
      obtain ⟨initial, hinitial, final, hfinal, any, hany, rfl⟩ := (hread hcut).1 h
      exact ⟨first, others, last, initial, any, final, rfl, hinitial, hany, hfinal, rfl⟩
  · rintro ⟨first, others, last, initial, any, final, hcut, hinitial, hany, hfinal, rfl⟩
    exact (hread hcut).2 ⟨initial, hinitial, final, hfinal, any, hany, rfl⟩

theorem flatMap_concat_star (first last : List Char) (others : List (List Char)) :
    first ++ (others ++ [last]).flatMap ('*' :: ·) =
      first ++ others.flatMap ('*' :: ·) ++ '*' :: last := by
  simp

/-- A text without a closing parenthesis is read as the fragments that its wildcards part. -/
theorem readSubstrings_eq_ok_iff {text : List Char} {s : Substrings} (hclose : ')' ∉ text) :
    readSubstrings text = .ok s ↔ Fragments text s := by
  have hpieces {first last : List Char} {others : List (List Char)}
      (htext : text = first ++ others.flatMap ('*' :: ·) ++ '*' :: last) :
      ')' ∉ first ∧ (∀ piece ∈ others, ')' ∉ piece) ∧ ')' ∉ last := by
    refine ⟨?_, fun piece hpiece => ?_, ?_⟩ <;> intro hmem <;> apply hclose <;> rw [htext]
    · simp [hmem]
    · refine List.mem_append_left _ (List.mem_append_right _ ?_)
      exact List.mem_flatMap.2 ⟨piece, hpiece, List.mem_cons_of_mem _ hmem⟩
    · simp [hmem]
  rw [readSubstrings_eq_ok_iff_exists]
  constructor
  · rintro ⟨first, others, last, initial, any, final, hcut, hinitial, hany, hfinal, rfl⟩
    obtain ⟨htext, hfree⟩ := cut_eq_iff.1 hcut
    rw [flatMap_concat_star] at htext
    obtain ⟨hfirst, hothers, hlast⟩ := hpieces htext
    rw [htext]
    exact .intro hfree ((readValue_eq_ok_iff hfirst).1 hinitial) ((forall₂_readValue_iff hothers).1 hany)
      ((readValue_eq_ok_iff hlast).1 hfinal)
  · rintro ⟨hfree, hinitial, hany, hfinal⟩
    obtain ⟨hfirst, hothers, hlast⟩ := hpieces rfl
    rw [← flatMap_concat_star]
    exact ⟨_, _, _, _, _, _, cut_join hfree, (readValue_eq_ok_iff hfirst).2 hinitial,
      (forall₂_readValue_iff hothers).2 hany, (readValue_eq_ok_iff hlast).2 hfinal, rfl⟩

end SearchFilter.Item
