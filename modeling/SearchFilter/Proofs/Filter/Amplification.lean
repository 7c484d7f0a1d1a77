import Mathlib.Tactic.Common
import SearchFilter.Proofs.Filter.Termination

namespace SearchFilter

open Ber

/-- How many octets the fragments have. -/
def Substrings.octetCount (s : Substrings) : Nat :=
  (s.initial.toList ++ s.any ++ s.final.toList).flatten.length

/-- How many octets an assertion holds: those of its attribute, its matching rule, its value and its
fragments. The derived substring view is not counted. -/
def Assertion.octetCount : Assertion → Nat
  | .empty => 0
  | .comparison _ name value => (Utf8.encode name).length + value.length
  | .presence name => (Utf8.encode name).length
  | .substring name s => (Utf8.encode name).length + s.octetCount
  | .extensible e => ((e.matchType.toList ++ e.rule.toList).flatMap Utf8.encode).length + e.value.length

namespace Filter

/-- How many octets the assertions of a filter hold. -/
def octetCount (f : Filter) : Nat :=
  (f.leaves.map Assertion.octetCount).sum

/-- How many nodes a filter has. -/
def nodeCount (f : Filter) : Nat :=
  f.visits.length

/-- What a filter holds, where each of its nodes counts as `k` octets. -/
def load (k : Nat) (f : Filter) : Nat :=
  f.octetCount + k * f.nodeCount

theorem load_leaf (k : Nat) (a : Assertion) : load k (leaf a) = a.octetCount + k := by
  simp [load, octetCount, leaves, nodeCount, visits]

theorem load_negation (k : Nat) (f : Filter) : load k (negation f) = load k f + k := by
  simp only [load, octetCount, leaves, nodeCount, visits, List.length_append, List.length_singleton,
    Nat.mul_succ]
  omega

theorem load_junction (k : Nat) (c : Connective) (fs : List Filter) :
    load k (junction c fs) = (fs.map (load k)).sum + k := by
  have hclauses : ((leavesAll fs).map Assertion.octetCount).sum + k * (visitsAll fs).length =
      (fs.map (load k)).sum := by
    induction fs with
    | nil => rfl
    | cons f fs ih =>
      rw [List.map_cons, List.sum_cons, ← ih]
      simp only [load, octetCount, nodeCount, leavesAll, visitsAll, List.map_append, List.sum_append,
        List.length_append, Nat.mul_add]
      omega
  rw [← hclauses]
  simp only [load, octetCount, leaves, nodeCount, visits, List.length_append, List.length_singleton,
    Nat.mul_succ]
  omega

end Filter

/-- The octets of tagged elements hold what the elements hold. -/
theorem length_contents_le {fields : List (UInt8 × Octets)} {x : Octets} (h : Concat IsTagged fields x) :
    (fields.flatMap Prod.snd).length ≤ x.length := by
  refine h.length_flatMap_le fun field _ y hy => ?_
  have hle := hy.length_le
  omega

/-- The content of an element that encodes a leaf holds what the leaf does. -/
theorem Assertion.EncodedAs.octetCount_le {a : Assertion} {c : Octets} (h : a.EncodedAs c) :
    a.octetCount ≤ c.length := by
  cases h with
  | empty _ => exact Nat.zero_le _
  | comparison hx hy =>
    have hname := hx.length_le
    have hvalue := hy.length_le
    rw [octetCount, List.length_append]
    omega
  | presence name => exact Nat.le_refl _
  | @substring name s x c y hx hc hy =>
    have hname := hx.length_le
    have hsequence := hy.length_le
    have hfragments : s.octetCount ≤ c.length := by
      have hle := length_contents_le hc
      simpa [Substrings.tagged, List.flatMap_map, Substrings.octetCount] using hle
    rw [octetCount, List.length_append]
    omega
  | @extensible e flag c _ _ hc =>
    have htexts (t : UInt8) (texts : List String) :
        (texts.map (t, Utf8.encode ·)).flatMap Prod.snd = texts.flatMap Utf8.encode :=
      List.flatMap_map _ _ texts
    have hle := length_contents_le hc
    simp only [Extensible.tagged, List.flatMap_append, htexts, List.flatMap_singleton,
      List.length_append] at hle
    simp only [octetCount, List.flatMap_append, List.length_append]
    omega

namespace Filter

/-- Each node of a filter takes a tag and a length. -/
theorem EncodedAs.load_le {f : Filter} {x : Octets} (h : f.EncodedAs x) : f.load 2 ≤ x.length := by
  induction f generalizing x with
  | leaf a =>
    cases h with
    | leaf hc hx =>
      have hcontent := hc.octetCount_le
      have hle := hx.length_le
      rw [load_leaf]
      omega
  | negation f ih =>
    cases h with
    | negation hc hx =>
      have hcontent := ih hc
      have hle := hx.length_le
      rw [load_negation]
      omega
  | junction c fs ih =>
    cases h with
    | junction hc hx =>
      have hcontent := hc.sum_le (fun _ _ => List.length_append) fun f hf _ hy => ih f hf hy
      have hle := hx.length_le
      rw [load_junction]
      omega

end Filter

namespace Parsing

theorem size_append (x y : List Char) : size (x ++ y) = size x + size y := by
  induction x with
  | nil => exact (Nat.zero_add _).symm
  | cons c x ih => rw [List.cons_append, size, size, ih, Nat.add_assoc]

theorem size_toList (text : String) : size text.toList = (Utf8.encode text).length := by
  unfold Utf8.encode Utf8.encodeChars
  induction text.toList with
  | nil => rfl
  | cons c cs ih => rw [size, ih, List.flatMap_cons, List.length_append, String.length_utf8EncodeChar]

end Parsing

open Parsing

/-- A value has no more octets than its text. -/
theorem Escaped.Denotes.length_le {text : List Char} {bs : Octets} (h : Denotes text bs) :
    bs.length ≤ size text := by
  induction h with
  | nil => exact Nat.le_refl _
  | char _ _ ih =>
    rw [List.length_append, String.length_utf8EncodeChar, size]
    omega
  | @escape high low b text bs _ _ ih =>
    have hbackslash := Char.utf8Size_pos '\\'
    rw [List.length_cons, size, size, size]
    omega

theorem Item.length_nonempty? (bs : Octets) : (nonempty? bs).toList.flatten = bs := by
  cases bs <;> simp [nonempty?]

/-- The fragments of a text have no more octets than it. -/
theorem Item.Fragments.octetCount_le {text : List Char} {s : Substrings} (h : Fragments text s) :
    s.octetCount ≤ size text := by
  obtain ⟨_, hfirst, hothers, hlast⟩ := h
  have hany : ∀ {pieces : List (List Char)} {values : List Octets},
      List.Forall₂ Escaped.Denotes pieces values →
        values.flatten.length ≤ size (pieces.flatMap ('*' :: ·)) := by
    intro pieces values hvalues
    induction hvalues with
    | nil => exact Nat.le_refl _
    | cons hvalue _ ih =>
      have hle := hvalue.length_le
      rw [List.flatten_cons, List.length_append, List.flatMap_cons, size_append, size]
      omega
  have hinitial := hfirst.length_le
  have hmiddle := hany hothers
  have hfinal := hlast.length_le
  simp only [Substrings.octetCount, List.flatten_append, List.length_append, length_nonempty?, size_append,
    size]
  omega

/-- A matching rule has no more octets than the text of its field. -/
theorem Item.RuleField.octetCount_le {dnAttributes : Bool} {rule : Option String} {text : List Char}
    (h : RuleField dnAttributes rule text) :
    (rule.toList.flatMap Utf8.encode).length ≤ size text := by
  cases h with
  | absent => exact Nat.le_refl _
  | present _ _ =>
    rw [Option.toList_some, List.flatMap_singleton, size, size_toList]
    exact Nat.le_add_left _ _

/-- An item takes a character at least that is in none of the texts and values that it holds. -/
theorem Assertion.SpelledAs.octetCount_le {a : Assertion} {x : List Char} (h : a.SpelledAs x) :
    a.octetCount + 1 ≤ size x := by
  have hequals := Char.utf8Size_pos '='
  cases h with
  | presence _ =>
    rw [octetCount, size_append, size_toList, size]
    omega
  | equality _ hvalue _ =>
    have hle := hvalue.length_le
    rw [octetCount, size_append, size_toList, size]
    omega
  | substring _ hvalue _ =>
    have hle := hvalue.octetCount_le
    rw [octetCount, size_append, size_toList, size]
    omega
  | @ordering op name value bs _ _ hvalue =>
    have hle := hvalue.length_le
    have hsymbol : 1 ≤ size op.symbol := by cases op <;> decide
    rw [octetCount, size_append, size_toList, size_append]
    omega
  | @extensible e flag rule value _ _ hrule _ hvalue _ =>
    have hruleText := hrule.octetCount_le
    have hle := hvalue.length_le
    have htype : (e.matchType.toList.flatMap Utf8.encode).length = size (e.matchType.elim [] String.toList) := by
      cases e.matchType with
      | none => rfl
      | some name => rw [Option.toList_some, List.flatMap_singleton, Option.elim_some, size_toList]
    simp only [octetCount, List.flatMap_append, List.length_append, htype, size_append, size]
    omega

namespace Filter

/-- Each node of a filter takes a pair of parentheses, and a character behind the opening one or in its
item. -/
theorem SpelledAs.load_le {f : Filter} {x : List Char} (h : f.SpelledAs x) : f.load 3 ≤ size x := by
  have hopen := Char.utf8Size_pos '('
  have hclose := Char.utf8Size_pos ')'
  induction f generalizing x with
  | leaf a =>
    cases h with
    | leaf ha =>
      have hitem := ha.octetCount_le
      rw [load_leaf, size, size_append, size]
      omega
  | negation f ih =>
    cases h with
    | negation hf =>
      have hnegated := ih hf
      have hmark := Char.utf8Size_pos '!'
      rw [load_negation, size, size, size_append, size]
      omega
  | junction c fs ih =>
    cases h with
    | junction _ hfs =>
      have hclauses := hfs.sum_le size_append fun f hf _ hy => ih f hf hy
      have hsymbol := c.symbol.utf8Size_pos
      rw [load_junction, size, size, size_append, size]
      omega

/-- A text that does not start with a parenthesis gets two octets more. -/
theorem size_wrap (text : String) : size (wrap text.toList) =
    (Utf8.encode text).length + if text.toList.head? = some '(' then 0 else 2 := by
  have hparens : '('.utf8Size = 1 ∧ ')'.utf8Size = 1 := by decide
  rw [← size_toList, wrap]
  split_ifs
  · rfl
  · rw [List.cons_append, size, size_append, size, size]
    omega

/-- Both readers come to an end wherever they are put, and neither makes more of its input than there is:
what a filter holds and the least that each of its nodes takes, two octets in the binary form and three in
the text form, add up to the size of the input at most, where parentheses that are missing around a text
count with it. -/
theorem readers_terminate_without_amplifying :
    (Decoding.Terminates ∧ Parsing.Terminates) ∧
    (∀ b f, ofBer b = .ok f → f.octetCount + 2 * f.nodeCount ≤ b.length) ∧
    ∀ text f, parse text = .ok f →
      f.octetCount + 3 * f.nodeCount ≤
        (Utf8.encode text).length + if text.toList.head? = some '(' then 0 else 2 := by
  refine ⟨⟨Decoding.terminates, Parsing.terminates⟩, ?_, ?_⟩
  · intro b f h
    exact (ofBer_eq_ok_iff.1 h).1.load_le
  · intro text f h
    rw [← size_wrap]
    exact (parse_eq_ok_iff.1 h).2.load_le

/-- A conjunction of one presence test, in as few octets as there are for it. -/
def tightBer : Octets :=
  [0xA0, 0x03, 0x87, 0x01, 0x63]

/-- Neither bound leaves any room: these inputs meet them. -/
theorem tight_inputs_meet_bounds :
    (∃ f, ofBer tightBer = .ok f ∧ f.octetCount + 2 * f.nodeCount ≤ tightBer.length ∧
      tightBer.length ≤ f.octetCount + 2 * f.nodeCount) ∧
    ∃ f, parse "&(a=b)" = .ok f ∧ f.octetCount + 3 * f.nodeCount ≤ 6 + 2 ∧
      6 + 2 ≤ f.octetCount + 3 * f.nodeCount := by
  have hdecode : ofBer tightBer = .ok (and [leaf (.presence "c")]) := by cbv
  have hparse : parse "&(a=b)" = .ok (and [comparison .equal "a" [0x62]]) := by cbv
  obtain ⟨_, hber, htext⟩ := readers_terminate_without_amplifying
  exact ⟨⟨_, hdecode, hber _ _ hdecode, by decide⟩, ⟨_, hparse, htext _ _ hparse, by decide⟩⟩

end Filter

end SearchFilter
