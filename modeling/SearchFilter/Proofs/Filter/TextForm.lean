import Mathlib.Tactic.Common
import SearchFilter.Proofs.Filter.Grammar

namespace SearchFilter

open Item

/-- The assertions that an item can make. Names consist of their characters only, a substring
assertion has some fragment and none that is empty at its ends, and a matching rule that stands
first is not taken for the field that asks for distinguished names. -/
def Assertion.Textual : Assertion → Prop
  | .empty => False
  | .comparison _ name _ => IsName name
  | .presence name => IsName name
  | .substring name s =>
    IsName name ∧ s.initial ≠ some [] ∧ s.final ≠ some [] ∧ s.isEmpty = false
  | .extensible e =>
    (∀ name, e.matchType = some name → IsName name) ∧
      (∀ rule, e.rule = some rule → IsRule rule ∧ (e.dnAttributes = false → ¬IsDn rule.toList)) ∧
      (e.matchType ≠ none ∨ e.rule ≠ none)

/-- The filters that a text can spell: no junction is without clauses, and every leaf makes an
assertion that an item can make. -/
inductive Filter.Textual : Filter → Prop where
  | leaf {a : Assertion} (ha : a.Textual) : Textual (leaf a)
  | negation {f : Filter} (hf : Textual f) : Textual (negation f)
  | junction {c : Connective} {fs : List Filter} (hne : fs ≠ []) (hfs : ∀ f ∈ fs, Textual f) :
    Textual (junction c fs)

namespace Item

theorem nonempty?_ne (bs : Octets) : nonempty? bs ≠ some [] := by
  cases bs <;> simp [nonempty?]

theorem nonempty?_getD {fragment : Option Octets} (h : fragment ≠ some []) :
    nonempty? (fragment.getD []) = fragment := by
  cases fragment with
  | none => rfl
  | some bs =>
    cases bs with
    | nil => exact absurd rfl h
    | cons b bs => rfl

theorem nonempty?_eq_none_iff {bs : Octets} : nonempty? bs = none ↔ bs = [] := by
  cases bs <;> simp [nonempty?]

theorem toNat_lt_of_isAlphanum {c : Char} (h : c.isAlphanum = true) : c.toNat < 0x80 := by
  change (decide (c.val ≥ 65 ∧ c.val ≤ 90) || (decide (c.val ≥ 97) && decide (c.val ≤ 122)) ||
    (decide (c.val ≥ 48) && decide (c.val ≤ 57))) = true at h
  simp only [UInt32.le_iff_toNat_le, Bool.or_eq_true, Bool.and_eq_true, decide_eq_true_eq, ge_iff_le,
    UInt32.reduceToNat] at h
  change c.val.toNat < 0x80
  omega

/-- The characters of names have no meaning in filter texts. -/
theorem plain_of_isNameChar {c : Char} (h : isNameChar c = true ∨ Extensible.isRuleChar c = true) :
    c.toNat < 0x80 ∧ Escaped.isSpecial (UInt8.ofNat c.toNat) = false := by
  have hplain : ∀ k < 0x80, (Char.ofNat k).isAlphanum = true →
      Escaped.isSpecial (UInt8.ofNat k) = false := by
    decide +kernel
  have hchar : c.isAlphanum = true ∨ c = '_' ∨ c = '-' ∨ c = '.' := by
    simp only [isNameChar, Extensible.isRuleChar, Bool.or_eq_true, beq_iff_eq] at h
    rcases h with ((h | h) | h) | (h | h) | h
    · exact .inl h
    · exact .inr (.inl h)
    · exact .inr (.inr (.inl h))
    · exact .inl h
    · exact .inr (.inr (.inr h))
    · exact .inr (.inr (.inl h))
  rcases hchar with halphanum | rfl | rfl | rfl
  · have hlt := toNat_lt_of_isAlphanum halphanum
    refine ⟨hlt, hplain c.toNat hlt ?_⟩
    rwa [Char.ofNat_toNat]
  all_goals decide

theorem IsName.writeText_eq {name : String} (h : IsName name) :
    Escaped.writeText name = name.toList :=
  Escaped.writeText_eq fun c hc => plain_of_isNameChar (.inl (h.2 c hc))

theorem IsRule.writeText_eq {rule : String} (h : IsRule rule) :
    Escaped.writeText rule = rule.toList :=
  Escaped.writeText_eq fun c hc => plain_of_isNameChar (.inr (h.2 c hc))

theorem denotes_write (bs : Octets) : Escaped.Denotes (Escaped.write bs) bs :=
  (Escaped.written_write bs).denotes

/-- The text of fragments as pieces with wildcards in front of all but the first. -/
theorem chars_eq (s : Substrings) :
    s.chars = Escaped.write (s.initial.getD []) ++ (s.any.map Escaped.write).flatMap ('*' :: ·) ++
      '*' :: Escaped.write (s.final.getD []) := by
  have hjoin (pieces : List Octets) (last : List Char) :
      '*' :: pieces.flatMap (fun f => Escaped.write f ++ ['*']) ++ last =
        (pieces.map Escaped.write).flatMap ('*' :: ·) ++ '*' :: last := by
    induction pieces with
    | nil => rfl
    | cons piece pieces ih => simpa using ih
  simpa [Substrings.chars] using hjoin s.any (Escaped.write (s.final.getD []))

/-- What is written for fragments is read as them, if none at the ends is empty. -/
theorem fragments_chars {s : Substrings} (hinitial : s.initial ≠ some [])
    (hfinal : s.final ≠ some []) : Fragments s.chars s := by
  have hothers : List.Forall₂ Escaped.Denotes (s.any.map Escaped.write) s.any := by
    induction s.any with
    | nil => exact .nil
    | cons bs any ih => exact .cons (denotes_write bs) ih
  have hfree : ∀ piece ∈ Escaped.write (s.initial.getD []) ::
      (s.any.map Escaped.write ++ [Escaped.write (s.final.getD [])]), '*' ∉ piece := by
    intro piece hpiece
    obtain ⟨bs, rfl⟩ : ∃ bs, Escaped.write bs = piece := by
      simp only [List.mem_cons, List.mem_append, List.mem_map, List.not_mem_nil, or_false] at hpiece
      rcases hpiece with rfl | ⟨bs, _, rfl⟩ | rfl
      · exact ⟨_, rfl⟩
      · exact ⟨bs, rfl⟩
      · exact ⟨_, rfl⟩
    exact (Escaped.written_write bs).notMem_star
  have hfragments := Fragments.intro hfree (denotes_write _) hothers (denotes_write _)
  rwa [← chars_eq, nonempty?_getD hinitial, nonempty?_getD hfinal] at hfragments

end Item

namespace Assertion

/-- What an item spells is an assertion that an item can make. -/
theorem textual_of_spelledAs {a : Assertion} {x : List Char} (h : a.SpelledAs x) : a.Textual := by
  cases h with
  | presence hname => exact hname
  | equality hname _ _ => exact hname
  | ordering hname _ _ => exact hname
  | extensible htype _ hrule hnamed _ _ => exact ⟨htype, hrule.isRule, hnamed⟩
  | substring hname hvalue hwild =>
    cases hvalue with
    | @intro first last others initial final any _ hfirst hothers hlast =>
      refine ⟨hname, nonempty?_ne initial, nonempty?_ne final, ?_⟩
      by_contra hempty
      rw [Bool.not_eq_false] at hempty
      simp only [Substrings.isEmpty, Bool.and_eq_true, Option.isNone_iff_eq_none,
        nonempty?_eq_none_iff, List.isEmpty_iff] at hempty
      obtain ⟨⟨rfl, rfl⟩, rfl⟩ := hempty
      rw [hfirst.eq_nil_iff.1 rfl, hlast.eq_nil_iff.1 rfl] at hwild
      cases hothers
      exact hwild rfl

/-- The text of an assertion that an item can make spells it, but for its view. -/
theorem spelledAs_chars {a : Assertion} (h : a.Textual) : a.withoutView.SpelledAs a.chars := by
  cases a with
  | empty => cases h
  | comparison op name value =>
    have hname : IsName name := h
    have hstar := (Escaped.written_write value).notMem_star
    rw [chars, hname.writeText_eq, List.append_assoc]
    cases op with
    | equal => exact .equality hname (denotes_write value) hstar
    | _ => exact .ordering hname (by decide) (denotes_write value)
  | presence name =>
    have hname : IsName name := h
    rw [chars, hname.writeText_eq]
    exact .presence hname
  | substring name s =>
    obtain ⟨hname, hinitial, hfinal, hempty⟩ := h
    rw [chars, hname.writeText_eq, List.append_assoc, List.singleton_append]
    have hfragments := fragments_chars hinitial hfinal
    refine .substring hname hfragments ?_
    intro hwild
    rw [hwild, ← readSubstrings_eq_ok_iff (by decide)] at hfragments
    cases hfragments
    exact absurd hempty (by decide)
  | extensible e =>
    obtain ⟨htype, hrule, hnamed⟩ := h
    have hflag : DnField e.dnAttributes (if e.dnAttributes then [':', 'd', 'n'] else []) := by
      cases e.dnAttributes with
      | false => exact .absent
      | true => exact .present rfl
    have hruleField : RuleField e.dnAttributes e.rule
        ((e.rule.map (':' :: Escaped.writeText ·)).getD []) := by
      cases hmatch : e.rule with
      | none => exact .absent
      | some rule =>
        obtain ⟨hisRule, hdn⟩ := hrule rule hmatch
        rw [Option.map_some, Option.getD_some, hisRule.writeText_eq]
        exact .present hisRule hdn
    have htypeText : (e.matchType.map Escaped.writeText).getD [] = e.matchType.elim [] String.toList := by
      cases hmatch : e.matchType with
      | none => rfl
      | some name => exact (htype name hmatch).writeText_eq
    have hspelled := Assertion.SpelledAs.extensible (e := e.withoutView) htype hflag hruleField hnamed
      (denotes_write e.value) (.absent (Escaped.written_write e.value).notMem_star)
    rw [chars, Extensible.chars, htypeText]
    simp only [List.append_assoc, List.cons_append, List.nil_append]
    exact hspelled

/-- An assertion that an item can make is one that can be asked for. -/
theorem Textual.valid {a : Assertion} (h : a.Textual) : a.Valid := by
  cases a with
  | presence name => exact h.1
  | extensible e =>
    obtain ⟨htype, hrule, hnamed⟩ := h
    refine ⟨?_, fun rule heq => (hrule rule heq).1.2⟩
    rcases hnamed with hnamed | hnamed
    · obtain ⟨name, hname⟩ := Option.ne_none_iff_exists'.1 hnamed
      exact .inl ⟨name, hname, (htype name hname).1⟩
    · obtain ⟨rule, heq⟩ := Option.ne_none_iff_exists'.1 hnamed
      exact .inr ⟨rule, heq, (hrule rule heq).1.1⟩
  | _ => trivial

theorem textual_withoutView {a : Assertion} : a.withoutView.Textual ↔ a.Textual := by
  cases a <;> rfl

end Assertion

namespace Filter

/-- What a text spells is a filter that a text can spell. -/
theorem textual_of_spelledAs {f : Filter} {x : List Char} (h : f.SpelledAs x) : f.Textual := by
  induction f generalizing x with
  | leaf a =>
    cases h with
    | leaf ha => exact .leaf (Assertion.textual_of_spelledAs ha)
  | negation f ih =>
    cases h with
    | negation hf => exact .negation (ih hf)
  | junction c fs ih =>
    cases h with
    | junction hne hfs =>
      refine .junction hne fun f hf => ?_
      obtain ⟨y, hy, _⟩ := hfs.exists_of_mem hf
      exact ih f hf hy

theorem charsAll_eq (fs : List Filter) : charsAll fs = fs.flatMap chars := by
  induction fs with
  | nil => rfl
  | cons f fs ih => rw [charsAll, ih, List.flatMap_cons]

/-- The text of a filter spells the filter without its views: no wildcard is written in a value. -/
theorem spelledAs_chars {f : Filter} (h : f.Textual) : f.withoutView.SpelledAs f.chars := by
  induction f with
  | leaf a =>
    cases h with
    | leaf ha => exact .leaf (Assertion.spelledAs_chars ha)
  | negation f ih =>
    cases h with
    | negation hf => exact .negation (ih hf)
  | junction c fs ih =>
    cases h with
    | junction hne hfs =>
      rw [withoutView, withoutViewAll_eq, chars, charsAll_eq]
      refine .junction (by simpa using hne) (Concat.map_flatMap fun f hf => ih f hf (hfs f hf))

/-- What a text can spell can be asked for. -/
theorem Textual.valid {f : Filter} (h : f.Textual) : f.Valid := by
  induction f with
  | leaf a =>
    cases h with
    | leaf ha => exact valid_leaf.2 ha.valid
  | negation f ih =>
    cases h with
    | negation hf => exact valid_negation.2 (ih hf)
  | junction c fs ih =>
    cases h with
    | junction _ hfs => exact valid_junction.2 fun f hf => ih f hf (hfs f hf)

theorem textual_leaf {a : Assertion} : (leaf a).Textual ↔ a.Textual := by
  constructor
  · rintro ⟨ha⟩
    exact ha
  · exact .leaf

theorem textual_negation {f : Filter} : (negation f).Textual ↔ f.Textual := by
  constructor
  · rintro ⟨⟩
    assumption
  · exact .negation

theorem textual_junction {c : Connective} {fs : List Filter} :
    (junction c fs).Textual ↔ fs ≠ [] ∧ ∀ f ∈ fs, f.Textual := by
  constructor
  · rintro ⟨⟩
    exact ⟨‹_›, ‹_›⟩
  · rintro ⟨hne, hfs⟩
    exact .junction hne hfs

theorem textual_withoutView {f : Filter} : f.withoutView.Textual ↔ f.Textual := by
  induction f with
  | leaf a => rw [withoutView, textual_leaf, textual_leaf, Assertion.textual_withoutView]
  | negation f ih => rw [withoutView, textual_negation, textual_negation, ih]
  | junction c fs ih =>
    simp only [withoutView, withoutViewAll_eq, textual_junction, List.forall_mem_map, ne_eq,
      List.map_eq_nil_iff]
    exact and_congr_right fun _ => forall₂_congr ih

theorem chars_withoutView (f : Filter) : f.withoutView.chars = f.chars := by
  induction f with
  | leaf a => cases a <;> rfl
  | negation f ih => rw [withoutView, chars, chars, ih]
  | junction c fs ih =>
    have hclauses : (fs.map withoutView).map chars = fs.map chars := by
      rw [List.map_map]
      exact List.map_congr_left ih
    rw [withoutView, chars, chars, charsAll_eq, charsAll_eq, withoutViewAll_eq, List.flatMap_def, hclauses,
      List.flatMap_def]

/-- The text of a filter starts with a parenthesis, so it is read as what it spells by itself. -/
theorem parse_render_eq_ok_iff {f g : Filter} : parse f.render = .ok g ↔ g.SpelledAs f.chars := by
  have hopen : ∃ text, f.chars = '(' :: text := by
    cases f <;> exact ⟨_, rfl⟩
  obtain ⟨text, htext⟩ := hopen
  have hwrap : Parsing.wrap f.chars = f.chars := by
    rw [htext]
    rfl
  have hne : f.render ≠ "" := by
    rw [ne_eq, ← String.toList_eq_nil_iff, render, String.toList_ofList, htext]
    exact List.cons_ne_nil _ _
  rw [parse_eq_ok_iff, render, String.toList_ofList, hwrap]
  exact and_iff_right hne

/-- The reader of texts gives no filters but those that a text can spell. -/
theorem textual_of_parse {text : String} {f : Filter} (hparse : parse text = .ok f) : f.Textual :=
  textual_of_spelledAs (parse_eq_ok_iff.1 hparse).2

/-- A filter that a text can spell comes back from its text, but for its views. -/
theorem Textual.parse_render {f : Filter} (hf : f.Textual) : parse f.render = .ok f.withoutView :=
  parse_render_eq_ok_iff.2 (spelledAs_chars hf)

/-- The texts that are accepted as a filter are those that the grammar derives it from, and all other
texts are refused. -/
theorem parse_accepts_grammar (text : String) :
    (∀ f : Filter, parse text = .ok f ↔ text ≠ "" ∧ f.SpelledAs
        (if text.toList.head? = some '(' then text.toList else '(' :: text.toList ++ [')'])) ∧
      ((∃ e, parse text = .error e) ↔ text = "" ∨ ∀ f : Filter, ¬f.SpelledAs
        (if text.toList.head? = some '(' then text.toList else '(' :: text.toList ++ [')'])) := by
  change (∀ f : Filter, parse text = .ok f ↔ text ≠ "" ∧ f.SpelledAs (Parsing.wrap text.toList)) ∧
    ((∃ e, parse text = .error e) ↔
      text = "" ∨ ∀ f : Filter, ¬f.SpelledAs (Parsing.wrap text.toList))
  refine ⟨fun f => parse_eq_ok_iff, ?_⟩
  rw [Except.exists_error_iff]
  simp only [ne_eq, parse_eq_ok_iff, not_and]
  constructor
  · intro h
    by_cases hempty : text = ""
    · exact .inl hempty
    · exact .inr fun f => h f hempty
  · rintro (hempty | h) f hne
    · exact absurd hempty hne
    · exact h f

/-- A filter comes back from its text exactly where a text can spell it, and the parser gives no other
filters. -/
theorem parse_render_iff_textual :
    (∀ f : Filter, (∃ g, parse f.render = .ok g ∧ (g == f) = true) ↔ f.Textual) ∧
      ∀ (text : String) (f : Filter), parse text = .ok f → f.Textual := by
  refine ⟨fun f => ⟨?_, ?_⟩, ?_⟩
  · rintro ⟨g, hg, hequal⟩
    have htextual := textual_of_spelledAs (parse_render_eq_ok_iff.1 hg)
    rwa [← textual_withoutView, ← beq_iff.1 hequal, textual_withoutView]
  · intro h
    exact ⟨f.withoutView, parse_render_eq_ok_iff.2 (spelledAs_chars h),
      beq_iff.2 f.withoutView_withoutView⟩
  · intro text f hparse
    exact textual_of_spelledAs (parse_eq_ok_iff.1 hparse).2

end Filter

end SearchFilter
