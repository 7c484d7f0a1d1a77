import Mathlib
import SearchFilter.Filter.Limit
import SearchFilter.Proofs.Filter.BinaryForm
import SearchFilter.Proofs.Filter.TextForm
import SearchFilter.Proofs.Text.Parens

namespace SearchFilter

open Ber

namespace Decoding

/-- That a level was to be entered which the limit does not allow. -/
def IsTooDeep (e : FilterError) : Prop :=
  ∃ offset, e = .ber (.nestedTooDeep offset)

/-- Before an encoding of a filter that is deeper than the limit, the decoder stops at a level below
it, and for no other reason. -/
theorem filterWithin_tooDeep {d : Nat} {f : Filter} {x : Octets} {r t : Reader} (hx : f.EncodedAs x)
    (hvalid : f.Valid) (hdeep : d < f.depth) (hpasses : r.Passes x t) :
    ∃ e s, filterWithin d r = .error e s ∧ IsTooDeep e := by
  induction d generalizing f x r t with
  | zero => exact ⟨_, r, rfl, r.offset, rfl⟩
  | succ d ih =>
    obtain ⟨c, hc, l, hl, rfl⟩ := Filter.encodedAs_iff.1 hx
    obtain ⟨r₁, hheader, hcontent, hlength⟩ := hpasses.split c.length
    have hoffset := hcontent.offset_eq
    have hroom : r₁.length ≤ r₁.rest.length := by
      rw [hlength, hcontent.rest_eq, List.length_append]
      omega
    have hread : Read.header r = .ok f.tag r₁ := Read.header_eq_ok_iff.2 ⟨l, hlength ▸ hl, hheader, hroom⟩
    have hbody {e : FilterError} {s : Reader}
        (h : content (filterWithin d) f.kind (r₁.offset + r₁.length) r₁ = .error e s) :
        filterWithin (d + 1) r = .error e s := by
      rw [filterWithin, Read.bind_eq_error_iff]
      refine .inr ⟨f.tag, r₁, hread, ?_⟩
      rw [Filter.tag, Kind.ofTag?_tag]
      simp only [body, Read.bind_eq_error_iff, Read.offset_eq_ok_iff, Read.lastLength_eq_ok_iff]
      exact .inr ⟨_, r₁, ⟨rfl, rfl⟩, .inr ⟨_, r₁, ⟨rfl, rfl⟩, .inl h⟩⟩
    cases hc with
    | leaf _ =>
      rw [Filter.depth] at hdeep
      omega
    | @negation f c hf =>
      rw [Filter.depth] at hdeep
      obtain ⟨e, s, herror, he⟩ := ih hf (Filter.valid_negation.1 hvalid) (by omega) hcontent
      have hpos := List.length_pos_iff.2 hf.ne_nil
      have hbefore : r₁.offset < r₁.offset + r₁.length := by omega
      refine ⟨e, s, hbody ?_, he⟩
      simp only [Filter.kind, content, Read.bind_eq_error_iff, Read.offset_eq_ok_iff]
      refine .inr ⟨_, r₁, ⟨rfl, rfl⟩, ?_⟩
      rw [if_pos hbefore, Read.bind_eq_error_iff]
      exact .inl herror
    | @junction k fs c hfs =>
      rw [Filter.valid_junction] at hvalid
      have hclauses : Concat (fun f x => f.EncodedAs x ∧ f.Valid) fs c :=
        hfs.imp fun f hf _ henc => ⟨henc, hvalid f hf⟩
      have hdeeper : ∃ f ∈ fs, ¬f.depth ≤ d := by
        by_contra hshallow
        have hall : Filter.depthAll fs ≤ d := by
          rw [Filter.depthAll_le_iff]
          intro f hf
          by_contra hbad
          exact hshallow ⟨f, hf, hbad⟩
        rw [Filter.depth] at hdeep
        omega
      have hbefore : ∃ e s, Read.before (filterWithin d) (r₁.offset + r₁.length)
          (r₁.offset + r₁.length - r₁.offset) r₁ = .error e s ∧ IsTooDeep e := by
        apply Read.before_error (P := fun f => f.depth ≤ d) _ _ _ hclauses hdeeper hcontent
        · omega
        · omega
        · intro f x r t hf hdepth hpasses
          exact filterWithin_complete ⟨hf.1, hf.2, hdepth⟩ hpasses
        · intro f x r t hf hdepth hpasses
          exact ih hf.1 hf.2 (by omega) hpasses
        · intro f x hf
          exact hf.1.ne_nil
      obtain ⟨e, s, herror, he⟩ := hbefore
      refine ⟨e, s, hbody ?_, he⟩
      simp only [Filter.kind, content, Read.bind_eq_error_iff, Read.offset_eq_ok_iff]
      exact .inr ⟨_, r₁, ⟨rfl, rfl⟩, .inl herror⟩

end Decoding

namespace Filter

open Decoding

/-- A limit keeps the filters that are not deeper than it, and a deeper one is refused for its depth. -/
theorem ofBerWithin_spec (b : Octets) (d : Nat) :
    (∀ f, ofBerWithin d b = .ok f ↔ ofBer b = .ok f ∧ f.depth ≤ d) ∧
      ∀ f, ofBer b = .ok f → d < f.depth → ∃ fault, ofBerWithin d b = .error (.ber fault) := by
  constructor
  · intro f
    rw [ofBerWithin_eq_ok_iff, ofBer_eq_ok_iff, and_assoc]
  · intro f hf hdeep
    obtain ⟨henc, hvalid⟩ := ofBer_eq_ok_iff.1 hf
    obtain ⟨_, s, herror, offset, rfl⟩ := filterWithin_tooDeep henc hvalid hdeep (.ofOctets b)
    exact ⟨_, whole_eq_error herror⟩

/-- The text of a filter is a pair of parentheses around a text that nests one level less. -/
theorem SpelledAs.exists_nests {f : Filter} {x : List Char} (hx : f.SpelledAs x) :
    ∃ y n, x = '(' :: (y ++ [')']) ∧ Paren.Nests y n ∧ f.depth = n + 1 := by
  have hsymbol {c : Char} (hc : c ≠ '(' ∧ c ≠ ')') : Paren.Nests [c] 0 := by
    apply Paren.Nests.of_notMem
    · simpa using hc.1.symm
    · simpa using hc.2.symm
  induction f generalizing x with
  | leaf a =>
    cases hx with
    | leaf ha =>
      have hnests := Paren.Nests.of_notMem (ha.notMem (.inl rfl)) (ha.notMem (.inr rfl))
      exact ⟨_, 0, rfl, hnests, rfl⟩
  | negation f ih =>
    cases hx with
    | negation hf =>
      obtain ⟨y, n, rfl, hy, hdepth⟩ := ih hf
      have hnests := (hsymbol (c := '!') (by decide)).append hy.enclose
      rw [Nat.zero_max] at hnests
      exact ⟨_, n + 1, rfl, hnests, by rw [depth, hdepth]⟩
  | junction c fs ih =>
    cases hx with
    | @junction _ _ x _ hfs =>
      have hclauses : Paren.Nests x (depthAll fs) := by
        clear * - ih hfs
        induction hfs with
        | nil => exact Paren.Nests.of_notMem List.not_mem_nil List.not_mem_nil
        | @cons f fs y z hf _ ihs =>
          obtain ⟨y, n, rfl, hy, hdepth⟩ := ih f List.mem_cons_self hf
          rw [depthAll, hdepth]
          exact hy.enclose.append (ihs fun g hg => ih g (List.mem_cons_of_mem _ hg))
      have hnests := (hsymbol (c := c.symbol) (by cases c <;> decide)).append hclauses
      rw [Nat.zero_max] at hnests
      exact ⟨_, depthAll fs, rfl, hnests, rfl⟩

/-- A filter text nests its parentheses as deep as the filter is, those around it counted that a
reader adds where they are missing. -/
theorem depth_eq_of_parse {text : String} {f : Filter} (hparse : parse text = .ok f) :
    Paren.depth text = f.depth := by
  obtain ⟨_, hspelled⟩ := parse_eq_ok_iff.1 hparse
  obtain ⟨y, n, htext, hy, hdepth⟩ := hspelled.exists_nests
  unfold Parsing.wrap at htext
  unfold Paren.depth
  dsimp only
  by_cases hopen : text.toList.head? = some '('
  · rw [if_pos hopen] at htext ⊢
    rw [htext, hy.enclose.deepestFrom_eq, hdepth]
  · rw [if_neg hopen] at htext ⊢
    have hinner : text.toList = y := by simpa using htext
    rw [hinner, hy.deepestFrom_eq, hdepth]

/-- Counting parentheses first refuses no filter that keeps to the limit, and lets no other pass. -/
theorem parseLimited_eq_ok_iff {m : Nat} {text : String} {f : Filter} :
    parseLimited (some m) text = .ok f ↔ parse text = .ok f ∧ f.depth ≤ m := by
  unfold parseLimited
  dsimp only
  cases hparse : parse text with
  | error e => split <;> simp [Except.mapError]
  | ok g =>
    rw [depth_eq_of_parse hparse]
    split_ifs with hdeep
    · simp only [Except.ok.injEq, false_iff, not_and]
      intro heq
      subst heq
      omega
    · simp only [Except.mapError, Except.ok.injEq, iff_self_and]
      intro heq
      subst heq
      omega

/-- A limit accepts the texts that are accepted without it and whose filters keep to it. -/
theorem parseLimited_eq_ok_iff_within {limit : Option Nat} {text : String} {f : Filter} :
    parseLimited limit text = .ok f ↔ parse text = .ok f ∧ ∀ m ∈ limit, f.depth ≤ m := by
  cases limit with
  | none => simp [parseLimited, Except.mapError_eq_ok_iff]
  | some m => simp [parseLimited_eq_ok_iff]

/-- A limit accepts the encodings that are accepted without it and whose filters keep to it. -/
theorem ofBerLimited_eq_ok_iff {limit : Option Nat} {b : Octets} {f : Filter} :
    ofBerLimited limit b = .ok f ↔ ofBer b = .ok f ∧ ∀ m ∈ limit, f.depth ≤ m := by
  cases limit with
  | none => simp [ofBerLimited]
  | some m => simp [ofBerLimited, (ofBerWithin_spec _ _).1]

/-- What is written for the filter of a text is read back under the same limit. -/
theorem ofBerLimited_toBer {limit : Option Nat} {text : String} {f : Filter}
    (hparse : parseLimited limit text = .ok f) (hsize : f.toBer.length < 2 ^ 32) :
    ofBerLimited limit f.toBer = .ok f.withoutView := by
  obtain ⟨hread, hwithin⟩ := parseLimited_eq_ok_iff_within.1 hparse
  rw [ofBerLimited_eq_ok_iff, depth_withoutView]
  exact ⟨(ofBer_toBer_eq_ok_iff hsize).2 ⟨rfl, (textual_of_parse hread).valid⟩, hwithin⟩

/-- The text that is written for it is read under the same limit, too. -/
theorem parseLimited_render {limit : Option Nat} {text : String} {f : Filter}
    (hparse : parseLimited limit text = .ok f) : parseLimited limit f.render = .ok f.withoutView := by
  obtain ⟨hread, hwithin⟩ := parseLimited_eq_ok_iff_within.1 hparse
  rw [parseLimited_eq_ok_iff_within, depth_withoutView]
  exact ⟨(textual_of_parse hread).parse_render, hwithin⟩

/-- A text under a limit is read exactly where the binary form of its filter is. -/
theorem exists_parseLimited_iff {text : String} {f : Filter} (hparse : parse text = .ok f)
    (hsize : f.toBer.length < 2 ^ 32) (limit : Option Nat) :
    (∃ g, parseLimited limit text = .ok g) ↔ ∃ g, ofBerLimited limit f.toBer = .ok g := by
  constructor
  · rintro ⟨g, hg⟩
    obtain rfl : f = g := Except.ok.inj (hparse.symm.trans (parseLimited_eq_ok_iff_within.1 hg).1)
    exact ⟨_, ofBerLimited_toBer hg hsize⟩
  · rintro ⟨g, hg⟩
    obtain ⟨hread, hwithin⟩ := ofBerLimited_eq_ok_iff.1 hg
    obtain ⟨rfl, _⟩ := (ofBer_toBer_eq_ok_iff hsize).1 hread
    rw [depth_withoutView] at hwithin
    exact ⟨f, parseLimited_eq_ok_iff_within.2 ⟨hparse, hwithin⟩⟩

/-- The limits are exact: each accepts what is accepted without it and is no deeper, the decoder
refuses anything deeper as a fault of the encoding, and the count of parentheses is the depth of every
filter text. So under any limit the texts of a filter, the one it was read from and the one written for
it, are read exactly where what is encoded for it is. -/
theorem limits_exact_and_agree :
    (∀ (b : Octets) (d : Nat),
      (∀ f, ofBerWithin d b = .ok f ↔ ofBer b = .ok f ∧ f.depth ≤ d) ∧
        ∀ f, ofBer b = .ok f → d < f.depth → ∃ fault, ofBerWithin d b = .error (.ber fault)) ∧
    (∀ (text : String) (m : Nat) (f : Filter),
      parseLimited (some m) text = .ok f ↔ parse text = .ok f ∧ f.depth ≤ m) ∧
    (∀ (text : String) (f : Filter), parse text = .ok f → Paren.depth text = f.depth) ∧
    ∀ (text : String) (f : Filter) (limit : Option Nat), parse text = .ok f →
      f.toBer.length < 2 ^ 32 →
      ((∃ g, parseLimited limit text = .ok g) ↔ ∃ g, ofBerLimited limit f.toBer = .ok g) ∧
        ((∃ g, parseLimited limit f.render = .ok g) ↔ ∃ g, ofBerLimited limit f.toBer = .ok g) := by
  refine ⟨ofBerWithin_spec, fun _ _ _ => parseLimited_eq_ok_iff, fun _ _ => depth_eq_of_parse, ?_⟩
  intro text f limit hparse hsize
  have htextual : f.Textual := textual_of_spelledAs (parse_eq_ok_iff.1 hparse).2
  have hrender : parse f.render = .ok f.withoutView :=
    parse_render_eq_ok_iff.2 (spelledAs_chars htextual)
  rw [← f.toBer_withoutView] at hsize
  have hwritten := exists_parseLimited_iff hrender hsize limit
  rw [f.toBer_withoutView] at hsize hwritten
  exact ⟨exists_parseLimited_iff hparse hsize limit, hwritten⟩

/-- A filter of three levels. -/
def threeLevels : Filter :=
  junction .and [comparison .equal "a" [0x62], negation (leaf (.presence "c"))]

/-- Octets that encode it, with a length that is longer than it needs to be. -/
def threeLevelsBer : Octets :=
  [0xA0, 0x81, 0x0D, 0xA3, 0x06, 0x04, 0x01, 0x61, 0x04, 0x01, 0x62, 0xA2, 0x03, 0x87, 0x01, 0x63]

/-- A filter of three levels, whose encoding is refused at a limit of two. Its parentheses nest as
deep as it does, so the limit treats its text as it does its octets. -/
theorem limits_at_two_of_three_levels :
    ofBer threeLevelsBer = .ok threeLevels ∧ 2 < threeLevels.depth ∧
      parse "&(a=b)(!(c=*))" = .ok threeLevels ∧ threeLevels.toBer.length < 2 ^ 32 ∧
      (∃ fault, ofBerWithin 2 threeLevelsBer = .error (.ber fault)) ∧
      Paren.depth "&(a=b)(!(c=*))" = threeLevels.depth ∧
      ((∃ g, parseLimited (some 2) "&(a=b)(!(c=*))" = .ok g) ↔
        ∃ g, ofBerLimited (some 2) threeLevels.toBer = .ok g) := by
  have hdecode : ofBer threeLevelsBer = .ok threeLevels := by cbv
  have hparse : parse "&(a=b)(!(c=*))" = .ok threeLevels := by cbv
  have hdeep : 2 < threeLevels.depth := by decide
  have hsize : threeLevels.toBer.length < 2 ^ 32 := by decide
  obtain ⟨hber, _, hparens, hagree⟩ := limits_exact_and_agree
  exact ⟨hdecode, hdeep, hparse, hsize, (hber threeLevelsBer 2).2 threeLevels hdecode hdeep,
    hparens _ threeLevels hparse, (hagree _ threeLevels (some 2) hparse hsize).1⟩

end Filter

end SearchFilter
