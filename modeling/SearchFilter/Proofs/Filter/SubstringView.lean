import Mathlib
import SearchFilter.Proofs.Filter.TextForm

namespace SearchFilter

/-- The value that fragments are cut from: a star between each two, and where the first or last is
absent. -/
def Substrings.joined (s : Substrings) : Octets :=
  s.initial.getD [] ++ s.any.flatMap (0x2A :: ·) ++ 0x2A :: s.final.getD []

namespace Item

theorem getD_nonempty? (bs : Octets) : (nonempty? bs).getD [] = bs := by
  cases bs <;> rfl

/-- A wildcard parts a text into two values and stands for a star between them. -/
theorem readValue_append_star_eq_ok_iff {before after : List Char} {bs : Octets} :
    readValue (before ++ '*' :: after) = .ok bs ↔
      ∃ p q, readValue before = .ok p ∧ readValue after = .ok q ∧ bs = p ++ 0x2A :: q := by
  have hread : Escaped.read (before ++ '*' :: after) = .ok bs ↔
      ∃ p q, Escaped.read before = .ok p ∧ Escaped.read after = .ok q ∧ bs = p ++ 0x2A :: q :=
    Escaped.read_append_cons_eq_ok_iff (by decide) (by decide)
  unfold readValue
  by_cases hbefore : '(' ∈ before
  · simp [hbefore]
  by_cases hafter : '(' ∈ after
  · simp [hafter]
  simp [hbefore, hafter, hread]

/-- A text with wildcards is a value just where each piece between them is. -/
theorem readValue_pieces_eq_ok_iff {first last : List Char} {others : List (List Char)} {bs : Octets} :
    readValue (first ++ others.flatMap ('*' :: ·) ++ '*' :: last) = .ok bs ↔
      ∃ initial any final, readValue first = .ok initial ∧
        List.Forall₂ (fun piece value => readValue piece = .ok value) others any ∧
        readValue last = .ok final ∧ bs = initial ++ any.flatMap (0x2A :: ·) ++ 0x2A :: final := by
  induction others generalizing first bs with
  | nil =>
    rw [List.flatMap_nil, List.append_nil, readValue_append_star_eq_ok_iff]
    constructor
    · rintro ⟨initial, final, hinitial, hfinal, rfl⟩
      exact ⟨initial, [], final, hinitial, .nil, hfinal, by simp⟩
    · rintro ⟨initial, any, final, hinitial, ⟨⟩, hfinal, rfl⟩
      exact ⟨initial, final, hinitial, hfinal, by simp⟩
  | cons piece others ih =>
    have htext : first ++ (piece :: others).flatMap ('*' :: ·) ++ '*' :: last =
        first ++ '*' :: (piece ++ others.flatMap ('*' :: ·) ++ '*' :: last) := by simp
    rw [htext, readValue_append_star_eq_ok_iff]
    constructor
    · rintro ⟨initial, rest, hinitial, hrest, rfl⟩
      obtain ⟨value, any, final, hvalue, hany, hfinal, rfl⟩ := ih.1 hrest
      exact ⟨initial, value :: any, final, hinitial, .cons hvalue hany, hfinal, by simp⟩
    · rintro ⟨initial, any, final, hinitial, hany, hfinal, rfl⟩
      cases hany with
      | @cons _ value _ any hvalue hany =>
        exact ⟨initial, _, hinitial, ih.2 ⟨value, any, final, hvalue, hany, hfinal, rfl⟩, by simp⟩

variable {text : List Char} {s : Substrings}

/-- The pieces of a text between its wildcards, each read as one of the fragments, from left to right. An
absent fragment is an empty piece at an end. -/
def PiecesRead (text : List Char) (s : Substrings) : Prop :=
  ∃ first others last, text = first ++ others.flatMap ('*' :: ·) ++ '*' :: last ∧
    (∀ piece ∈ first :: (others ++ [last]), '*' ∉ piece) ∧
    readValue first = .ok (s.initial.getD []) ∧
    List.Forall₂ (fun piece value => readValue piece = .ok value) others s.any ∧
    readValue last = .ok (s.final.getD [])

/-- Fragments that were read are read off the pieces. -/
theorem piecesRead_of_readSubstrings (h : readSubstrings text = .ok s) : PiecesRead text s := by
  obtain ⟨first, others, last, initial, any, final, hcut, hinitial, hany, hfinal, rfl⟩ :=
    readSubstrings_eq_ok_iff_exists.1 h
  obtain ⟨htext, hfree⟩ := cut_eq_iff.1 hcut
  rw [flatMap_concat_star] at htext
  refine ⟨first, others, last, htext, hfree, ?_, hany, ?_⟩
  · rwa [getD_nonempty?]
  · rwa [getD_nonempty?]

/-- The whole text is read as the fragments with a star for each wildcard. -/
theorem PiecesRead.readValue_eq (h : PiecesRead text s) : readValue text = .ok s.joined := by
  obtain ⟨first, others, last, rfl, _, hinitial, hany, hfinal⟩ := h
  exact readValue_pieces_eq_ok_iff.2 ⟨_, _, _, hinitial, hany, hfinal, rfl⟩

/-- There is one wildcard more than there are pieces between two of them. -/
theorem PiecesRead.count_star (h : PiecesRead text s) : text.count '*' = s.any.length + 1 := by
  obtain ⟨first, others, last, rfl, hfree, _, hany, _⟩ := h
  have hothers : (others.flatMap ('*' :: ·)).count '*' = others.length := by
    have hnone : ∀ piece ∈ others, '*' ∉ piece := by
      intro piece hpiece
      exact hfree piece (by simp [hpiece])
    clear * - hnone
    induction others with
    | nil => rfl
    | cons piece others ih =>
      rw [List.forall_mem_cons] at hnone
      simp [List.count_eq_zero_of_not_mem hnone.1, ih hnone.2]
  have hfirst := List.count_eq_zero_of_not_mem (hfree first List.mem_cons_self)
  have hlast := List.count_eq_zero_of_not_mem (hfree last (by simp))
  simp [hfirst, hlast, hothers, hany.length_eq]

/-- Fragments are read from a text with wildcards just where the whole text is a value. -/
theorem exists_readSubstrings_iff (hstar : '*' ∈ text) :
    (∃ s, readSubstrings text = .ok s) ↔ ∃ bs, readValue text = .ok bs := by
  constructor
  · rintro ⟨s, hs⟩
    exact ⟨s.joined, (piecesRead_of_readSubstrings hs).readValue_eq⟩
  · rintro ⟨bs, hbs⟩
    obtain ⟨htext, hfree⟩ := cut_spec '*' text
    generalize hcut : cut '*' text = pieces at htext hfree
    obtain ⟨first, others⟩ := pieces
    rcases List.eq_nil_or_concat others with rfl | ⟨others, last, rfl⟩
    · rw [htext, List.flatMap_nil, List.append_nil] at hstar
      exact absurd hstar (hfree first List.mem_cons_self)
    · rw [List.concat_eq_append] at hcut htext
      rw [htext, flatMap_concat_star] at hbs
      obtain ⟨initial, any, final, hinitial, hany, hfinal, _⟩ := readValue_pieces_eq_ok_iff.1 hbs
      exact ⟨_, readSubstrings_eq_ok_iff_exists.2
        ⟨first, others, last, initial, any, final, hcut, hinitial, hany, hfinal, rfl⟩⟩

/-- The view of a value is what is read from the pieces of its text, if there are any wildcards. -/
theorem View.eq_some_iff {value : List Char} {view : Option Substrings} (h : View value view) :
    view = some s ↔ Fragments value s := by
  constructor
  · rintro rfl
    cases h with
    | present hs => exact hs
  · intro hs
    cases h with
    | absent hstar => exact absurd hs.mem_star hstar
    | present hs' =>
      have hclose := hs.notMem_paren.2
      have hread := (readSubstrings_eq_ok_iff hclose).2 hs'
      rw [(readSubstrings_eq_ok_iff hclose).2 hs] at hread
      rw [Except.ok.inj hread]

theorem View.isSome_iff {value : List Char} {view : Option Substrings} (h : View value view) :
    view.isSome = true ↔ '*' ∈ value := by
  cases h with
  | absent hstar => simp [hstar]
  | present hs => simp [hs.mem_star]

end Item

open Item

/-- What stands in front of the value of an extensible item has no equals sign, so the value is what
stands behind the first one. -/
theorem Assertion.SpelledAs.exists_value {e : Extensible} {item : List Char}
    (h : (Assertion.extensible e).SpelledAs item) :
    ∃ header value, item = header ++ ':' :: '=' :: value ∧ '=' ∉ header ∧
      Escaped.Denotes value e.value ∧ View value e.substrings := by
  cases h with
  | @extensible _ flag rule value htype hflag hrule _ hvalue hview =>
    refine ⟨e.matchType.elim [] String.toList ++ (flag ++ rule), value, by simp, ?_, hvalue, hview⟩
    have hname : '=' ∉ e.matchType.elim [] String.toList := by
      cases hmatch : e.matchType with
      | none => exact List.not_mem_nil
      | some name => exact notMem_of_forall (htype name hmatch).2 (by decide)
    simp [hname, hflag.notMem (c := '=') (by decide) (by decide),
      hrule.notMem (c := '=') (by decide) (by decide)]

namespace Filter

/-- Each leaf has its item in the text of a filter, in parentheses. The text of a filter that is a leaf is
nothing else. -/
theorem SpelledAs.exists_item {f : Filter} {x : List Char} (h : f.SpelledAs x) {a : Assertion}
    (ha : a ∈ f.leaves) :
    ∃ before item after, x = before ++ '(' :: item ++ ')' :: after ∧ a.SpelledAs item ∧
      (f = .leaf a → before = [] ∧ after = []) := by
  induction f generalizing x with
  | leaf b =>
    obtain rfl := List.mem_singleton.1 ha
    cases h with
    | @leaf _ item hitem => exact ⟨[], item, [], rfl, hitem, fun _ => ⟨rfl, rfl⟩⟩
  | negation f ih =>
    cases h with
    | negation hx =>
      obtain ⟨before, item, after, rfl, hitem, _⟩ := ih hx ha
      exact ⟨'(' :: '!' :: before, item, after ++ [')'], by simp, hitem, by simp⟩
  | junction c fs ih =>
    cases h with
    | junction _ hx =>
      obtain ⟨f, hf, ha⟩ := mem_leaves_junction.1 ha
      obtain ⟨front, y, back, hy, rfl⟩ := hx.exists_append_of_mem hf
      obtain ⟨before, item, after, rfl, hitem, _⟩ := ih f hf hy ha
      exact ⟨'(' :: c.symbol :: (front ++ before), item, after ++ back ++ [')'], by simp, hitem, by simp⟩

/-- Behind a name and an equals sign a value with wildcards is a substring assertion, and its fragments
are those of the value. -/
theorem parse_substring_eq_ok_iff {name : String} {value : List Char} {s : Substrings}
    (hname : IsName name) (hwild : value ≠ ['*']) :
    parse (String.ofList ('(' :: (name.toList ++ '=' :: value) ++ [')'])) = .ok (substring name s) ↔
      Fragments value s := by
  rw [parse_eq_ok_iff, String.toList_ofList]
  constructor
  · rintro ⟨_, hspelled⟩
    change SpelledAs _ ('(' :: (name.toList ++ '=' :: value) ++ [')']) at hspelled
    generalize htext : '(' :: (name.toList ++ '=' :: value) ++ [')'] = text at hspelled
    cases hspelled with
    | leaf ha =>
      generalize hitem : name.toList ++ '=' :: value = item at htext
      obtain rfl : item = _ := by simpa using htext
      cases ha with
      | substring _ hs _ =>
        obtain rfl : value = _ := by simpa using hitem
        exact hs
  · intro hs
    refine ⟨by simp, ?_⟩
    exact .leaf (.substring hname hs hwild)

/-- A text with wildcards can be cut into fragments just where it can be read as a value, and the value is
the fragments with a star for each wildcard; a star that is escaped stays in its fragment. So in an
accepted text each extensible assertion has a view just where its value has a wildcard, and the view is the
value cut at these stars, and the fragments that the same value has in a substring assertion. -/
theorem view_agrees_with_value :
    (∀ text, '*' ∈ text → ((∃ s, readSubstrings text = .ok s) ↔ ∃ bs, readValue text = .ok bs)) ∧
      (∀ text s, readSubstrings text = .ok s →
        readValue text = .ok s.joined ∧ text.count '*' = s.any.length + 1 ∧ PiecesRead text s) ∧
      ∀ text f, parse text = .ok f → ∀ e, .extensible e ∈ f.leaves → ∃ before header value after,
        Parsing.wrap text.toList = before ++ '(' :: (header ++ ':' :: '=' :: value) ++ ')' :: after ∧
          '=' ∉ header ∧ (f = leaf (.extensible e) → before = [] ∧ after = []) ∧
          readValue value = .ok e.value ∧ (e.substrings.isSome = true ↔ '*' ∈ value) ∧
          (∀ s, e.substrings = some s → e.value = s.joined) ∧
          ∀ name s, IsName name → value ≠ ['*'] →
            (parse (String.ofList ('(' :: (name.toList ++ '=' :: value) ++ [')'])) =
                .ok (substring name s) ↔ e.substrings = some s) := by
  refine ⟨fun text hstar => exists_readSubstrings_iff hstar, ?_, ?_⟩
  · intro text s hs
    have hpieces := piecesRead_of_readSubstrings hs
    exact ⟨hpieces.readValue_eq, hpieces.count_star, hpieces⟩
  · intro text f hparse e he
    obtain ⟨before, item, after, htext, hitem, hwhole⟩ := (parse_eq_ok_iff.1 hparse).2.exists_item he
    obtain ⟨header, value, rfl, hheader, hdenotes, hview⟩ := hitem.exists_value
    have hclose := hdenotes.notMem_paren.2
    have hvalue := (readValue_eq_ok_iff hclose).2 hdenotes
    refine ⟨before, header, value, after, htext, hheader, hwhole, hvalue, hview.isSome_iff, ?_, ?_⟩
    · intro s hs
      have hread := (readSubstrings_eq_ok_iff hclose).2 (hview.eq_some_iff.1 hs)
      rw [(piecesRead_of_readSubstrings hread).readValue_eq] at hvalue
      exact (Except.ok.inj hvalue).symm
    · intro name s hname hwild
      rw [parse_substring_eq_ok_iff hname hwild, hview.eq_some_iff]

/-- An assertion with a flag and a rule, and with an escaped star on each side of a wildcard. -/
def starred : Extensible :=
  { matchType := some "cn", rule := some "2.5", value := [0x61, 0x2A, 0x2A, 0x2A, 0x62], dnAttributes := true,
    substrings := some { initial := some [0x61, 0x2A], any := [], final := some [0x2A, 0x62] } }

/-- An escaped star belongs to its fragment, and a wildcard becomes a star of the value. -/
theorem starred_view_agrees :
    (∃ s, readSubstrings "a\\2a*\\2Ab".toList = .ok s ∧ readValue "a\\2a*\\2Ab".toList = .ok s.joined) ∧
      parse "(!(cn:DN:2.5:=a\\2a*\\2Ab))" = .ok (negation (leaf (.extensible starred))) ∧
      ∃ value, '*' ∈ value ∧ readValue value = .ok starred.value ∧
        parse (String.ofList ('(' :: ("sn".toList ++ '=' :: value) ++ [')'])) =
          .ok (substring "sn" { initial := some [0x61, 0x2A], any := [], final := some [0x2A, 0x62] }) := by
  have hvalue : readValue "a\\2a*\\2Ab".toList = .ok starred.value := by cbv
  have hparse : parse "(!(cn:DN:2.5:=a\\2a*\\2Ab))" = .ok (negation (leaf (.extensible starred))) := by cbv
  obtain ⟨hreadable, hpieces, hparsed⟩ := view_agrees_with_value
  obtain ⟨s, hs⟩ := (hreadable "a\\2a*\\2Ab".toList (by simp)).2 ⟨_, hvalue⟩
  obtain ⟨_, _, value, _, _, _, _, hread, hstar, _, hsame⟩ := hparsed _ _ hparse starred (by simp [leaves])
  refine ⟨⟨s, hs, (hpieces _ s hs).1⟩, hparse, value, hstar.1 rfl, hread, ?_⟩
  refine (hsame "sn" _ ⟨by decide, by simp [isNameChar]⟩ ?_).2 rfl
  rintro rfl
  exact absurd hread (by decide)

end Filter

end SearchFilter
