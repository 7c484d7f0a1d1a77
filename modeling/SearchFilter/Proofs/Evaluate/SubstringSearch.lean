import Mathlib.Tactic.Common
import SearchFilter.Proofs.Evaluate.Junction
import SearchFilter.Proofs.Evaluate.Leaf
import SearchFilter.Proofs.Pattern.Expression

namespace SearchFilter

theorem Pattern.eq_ofSubstrings_of_compile {s : Substrings} {p : Pattern} (h : compile s = .ok p) :
    p = ofSubstrings s := by
  unfold compile at h
  dsimp only at h
  split_ifs at h
  exact (Except.ok.inj h).symm

/-- A text fits the pattern of an assertion just where the fragments are found in it. -/
theorem Pattern.fits_iff_of_compile {s : Substrings} {p : Pattern} (h : compile s = .ok p)
    {text : List Char} : p.fits text = true ↔ s.FoundIn text := by
  rw [eq_ofSubstrings_of_compile h, fits_iff, foundIn_ofSubstrings]

/-- Where there are no fragments, every text will do. -/
theorem Substrings.foundIn_of_isEmpty {s : Substrings} (h : s.isEmpty = true) (text : List Char) :
    s.FoundIn text := by
  obtain ⟨initial, any, final⟩ := s
  simp only [isEmpty, Bool.and_eq_true, Option.isNone_iff_eq_none, List.isEmpty_iff] at h
  obtain ⟨⟨rfl, rfl⟩, rfl⟩ := h
  exact ⟨[], [], text, rfl, .nil, by simp, by simp⟩

namespace Filter

/-- An assertion whose pattern is not too large holds where its fragments are found in a single value. -/
theorem holds_substring_iff {name : String} {s : Substrings} {r : Record} {strict : Bool}
    (hcompiles : (substring name s).Compiles) :
    (substring name s).holds r strict = .ok true ↔ ∃ x ∈ r.valuesOf name strict, s.FoundIn x.chars := by
  obtain ⟨p, hp⟩ : ∃ p, Pattern.compile s = .ok p := compiles_leaf.1 hcompiles
  rw [holds_substring_of_compile hp, Except.ok.injEq, List.any_eq_true]
  simp only [Pattern.fits_iff_of_compile hp]

/-- The regular expression of a substring assertion is found in a text just where the fragments are, and
so it is for the search itself. The assertion holds where one of the single values is such a text. An
attribute that is not there, or has no single value, does not meet it. -/
theorem substring_search_decides_fragments (s : Substrings) :
    (∃ parts, Expression.read? (Pattern.ofSubstrings s).regex = some parts ∧
        ∀ text, Expression.IsFoundIn parts text ↔ s.FoundIn text) ∧
      (s.isEmpty = true → ∀ text, s.FoundIn text) ∧
      (∀ p, Pattern.compile s = .ok p → ∀ text, p.fits text = true ↔ s.FoundIn text) ∧
      ∀ (name : String) (r : Record) (strict : Bool),
        (r.get? name strict = none → (substring name s).holds r strict = .ok false) ∧
          ((substring name s).Compiles →
            (substring name s).holds r strict =
                .ok (decide (∃ x ∈ r.valuesOf name strict, s.FoundIn x.chars)) ∧
              (r.valuesOf name strict = [] → (substring name s).holds r strict = .ok false)) := by
  refine ⟨⟨_, Pattern.read?_regex _, ?_⟩, Substrings.foundIn_of_isEmpty, ?_, ?_⟩
  · intro text
    rw [Pattern.isFoundIn_parts_iff, Pattern.foundIn_ofSubstrings]
  · intro p hp text
    exact Pattern.fits_iff_of_compile hp
  · intro name r strict
    refine ⟨holds_substring_of_none, fun hcompiles => ?_⟩
    obtain ⟨p, hp⟩ : ∃ p, Pattern.compile s = .ok p := compiles_leaf.1 hcompiles
    rw [holds_substring_of_compile hp]
    refine ⟨congrArg Except.ok ?_, fun hnone => by rw [hnone]; rfl⟩
    rw [Bool.eq_iff_iff, List.any_eq_true, decide_eq_true_eq]
    simp only [Pattern.fits_iff_of_compile hp]

/-- Fragments with a malformed octet, an empty one, and characters that would be wildcards. -/
def wildFragments : Substrings :=
  { initial := some [0x61, 0x2E, 0xFF], any := [[], [0x2A]], final := some [0x29] }

/-- A record with two texts that hold these fragments, in one of them with a line break between. -/
def wildRecord : Record :=
  .ofList [("cn", .many [.text "a.\uFFFD\n*)", .text "a.\uFFFD1**2)"]), ("sn", .null)]

/-- Characters that would be wildcards are searched as they are, a malformed octet as its
replacement, and the text with a line break between two fragments does not hold them. -/
theorem wildFragments_found :
    (substring "CN" wildFragments).Compiles ∧
      (substring "CN" wildFragments).holds wildRecord false = .ok true ∧
      ¬wildFragments.FoundIn "a.\uFFFD\n*)".toList ∧
      (substring "sn" wildFragments).holds wildRecord true = .ok false ∧
      (substring "CN" wildFragments).holds wildRecord true = .ok false := by
  have hcompiles (name : String) : (substring name wildFragments).Compiles :=
    compiles_leaf.2 ⟨Pattern.ofSubstrings wildFragments, rfl⟩
  have hfound : ∃ x ∈ wildRecord.valuesOf "CN" false, wildFragments.FoundIn x.chars := by decide
  have hnot : ¬wildFragments.FoundIn "a.\uFFFD\n*)".toList := by decide
  have hnull : wildRecord.valuesOf "sn" true = [] := by decide
  have hnone : wildRecord.get? "CN" true = none := by decide
  obtain ⟨_, _, _, hholds⟩ := substring_search_decides_fragments wildFragments
  refine ⟨hcompiles _, ?_, hnot, ((hholds _ _ _).2 (hcompiles _)).2 hnull, (hholds _ _ _).1 hnone⟩
  rw [((hholds "CN" wildRecord false).2 (hcompiles _)).1, decide_eq_true hfound]

end Filter

end SearchFilter
