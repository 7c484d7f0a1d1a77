import Mathlib
import SearchFilter.Filter.Decode
import SearchFilter.Filter.Parse
import SearchFilter.Proofs.Ber.Failure
import SearchFilter.Proofs.Evaluate.Matchers
import SearchFilter.Proofs.Filter.Clauses
import SearchFilter.Proofs.Filter.Closed
import SearchFilter.Proofs.Text.Failure

namespace SearchFilter

open Ber FilterError SearchFilter.Except

namespace Decoding

theorem failsOnly_body {one : Read Filter} (hone : Read.FailsOnly IsBinary one) (kind : Kind) :
    Read.FailsOnly IsBinary (body one kind) :=
  closed_body Read.closed_failsOnly hone kind

/-- A filter is refused under a limit with a fault of the encoding, also where a node is at
fault. -/
theorem failsOnly_filterWithin (depth : Nat) : Read.FailsOnly IsBinary (filterWithin depth) :=
  closed_filterWithin Read.closed_failsOnly depth

/-- Without a limit, too, octets are refused with faults of the encoding only. -/
theorem failsOnly_filter : Read.FailsOnly IsBinary filter :=
  closed_filter Read.closed_failsOnly

theorem failsOnly_whole {read : Read Filter} (hread : Read.FailsOnly IsBinary read) (data : Octets) :
    FailsOnly IsBinary (whole read data) := by
  unfold whole
  split
  · exact failsOnly_ok _
  · next e r h => exact failsOnly_error (closed_complete Read.closed_failsOnly hread _ e r h)

end Decoding

theorem failsOnly_parse {α : Type} (fault : TextFault) :
    FailsOnly IsTextual (.error (.parse fault) : Except FilterError α) :=
  failsOnly_error ⟨fault, rfl⟩

theorem Escaped.failsOnly_read (text : List Char) : FailsOnly IsTextual (read text) :=
  (misspelled_read text).mono fun _ => IsMisspelled.isTextual

namespace Parsing

/-- Clauses are refused with faults of the text, if each of them is. -/
theorem failsOnly_clauses {one : List Char → Except FilterError (Filter × List Char)}
    (hone : ∀ text, FailsOnly IsTextual (one text)) (budget : Nat) (text : List Char) :
    FailsOnly IsTextual (clauses one budget text) := by
  intro e h
  obtain rfl | ⟨start, _, herror⟩ := clauses_error h
  · exact ⟨_, rfl⟩
  · exact hone start e herror

theorem failsOnly_close (text : List Char) : FailsOnly IsTextual (close text) :=
  (misspelled_close text).mono fun _ => IsMisspelled.isTextual

/-- An item is refused with a fault of the text, also where the node it makes is at fault. -/
theorem failsOnly_item (text : List Char) : FailsOnly IsTextual (item text) :=
  (misspelled_item text).mono fun _ => IsMisspelled.isTextual

/-- A text is refused with faults of the text only, however deep it nests. -/
theorem failsOnly_filter (total depth : Nat) (text : List Char) :
    FailsOnly IsTextual (filter total depth text) := by
  induction depth generalizing text with
  | zero =>
    unfold filter
    split
    · exact failsOnly_parse _
    · contradiction
    · exact failsOnly_parse _
  | succ depth ih =>
    unfold filter
    split
    · exact failsOnly_parse _
    · next text hdepth =>
      obtain rfl := Nat.succ.inj hdepth
      split
      · exact (failsOnly_clauses ih _ _).bind fun result => failsOnly_ok _
      · exact (failsOnly_clauses ih _ _).bind fun result => failsOnly_ok _
      · exact (ih _).bind fun result => (failsOnly_close _).bind fun rest => failsOnly_ok _
      · exact (failsOnly_item _).bind fun result => failsOnly_ok _
    · exact failsOnly_parse _

theorem failsOnly_whole (depth : Nat) (text : List Char) : FailsOnly IsTextual (whole depth text) := by
  unfold whole
  split
  · exact failsOnly_parse _
  · dsimp only
    split
    · next e h => exact failsOnly_error (failsOnly_filter _ _ _ e h)
    · exact failsOnly_ok _
    · exact failsOnly_parse _

end Parsing

namespace Filter

theorem failsOnly_presence (name : String) : FailsOnly IsOfNode (presence name) := by
  unfold presence
  split
  · exact failsOnly_error ⟨_, rfl⟩
  · exact failsOnly_ok _

theorem failsOnly_extensible (e : Extensible) : FailsOnly IsOfNode (extensible e) := by
  unfold extensible
  split
  · exact failsOnly_ok _
  · exact failsOnly_error ⟨_, rfl⟩

theorem failsOnly_addClause (f clause : Filter) : FailsOnly IsOfNode (addClause f clause) := by
  unfold addClause
  split
  · exact failsOnly_ok _
  · exact failsOnly_error ⟨_, rfl⟩

theorem failsOnly_setNegated (f negated : Filter) : FailsOnly IsOfNode (setNegated f negated) := by
  unfold setNegated
  split
  · exact failsOnly_ok _
  · exact failsOnly_error ⟨_, rfl⟩

/-- Every operation fails in a class of its own. A refused input is always the input's fault: a text is
refused as a text, octets as octets, at any place of a buffer and at any depth, and no fault of a node
comes out of either reader. Building and changing nodes finds fault with nodes, and matching, where its
patterns can be compiled, only leaves matches undecided. It never finds fault with an input. -/
theorem errors_kept_apart :
    ((∀ text, FailsOnly IsTextual (parse text)) ∧ ∀ text, FailsOnly IsTextual (unescape text)) ∧
    ((∀ data, FailsOnly IsBinary (ofBer data)) ∧
      (∀ depth data, FailsOnly IsBinary (ofBerWithin depth data)) ∧
      (∀ kind data, FailsOnly IsBinary (ofBerAs kind data)) ∧
      Read.FailsOnly IsBinary Decoding.filter ∧
      ∀ depth, Read.FailsOnly IsBinary (Decoding.filterWithin depth)) ∧
    (∀ e : FilterError, e.IsTextual ∨ e.IsBinary →
      e.isMalformedInput = true ∧ ¬e.IsOfNode ∧ ¬e.IsUndecided) ∧
    ((∀ name, FailsOnly IsOfNode (presence name)) ∧ (∀ e, FailsOnly IsOfNode (extensible e)) ∧
      (∀ f clause, FailsOnly IsOfNode (addClause f clause)) ∧
      ∀ f negated, FailsOnly IsOfNode (setNegated f negated)) ∧
    ∀ f r strict, FailsOnly (fun e => e.isMalformedInput = false ∧ (f.Compiles → e.IsUndecided))
      (holds f r strict) := by
  refine ⟨⟨?_, ?_⟩, ⟨?_, ?_, ?_, ?_, ?_⟩, ?_, ⟨?_, ?_, ?_, ?_⟩, ?_⟩
  · exact fun text => Parsing.failsOnly_whole _ text.toList
  · exact fun text => Escaped.failsOnly_read text.toList
  · exact Decoding.failsOnly_whole Decoding.failsOnly_filter
  · exact fun depth => Decoding.failsOnly_whole (Decoding.failsOnly_filterWithin depth)
  · intro kind data
    refine Decoding.failsOnly_whole (Read.failsOnly_header.bind fun tag => .ite ?_ ?_) data
    · exact Decoding.failsOnly_body (Decoding.failsOnly_filterWithin _) kind
    · exact Read.failsOnly_throw (.inr ⟨kind.name, kind.tag, tag, rfl⟩)
  · exact Decoding.failsOnly_filter
  · exact Decoding.failsOnly_filterWithin
  · intro e he
    have hinput := isMalformedInput_eq_true_iff.2 he
    refine ⟨hinput, fun hnode => ?_, fun hundecided => ?_⟩
    · rw [isMalformedInput_eq_false_iff.2 (.inl hnode)] at hinput
      cases hinput
    · rw [isMalformedInput_eq_false_iff.2 (.inr hundecided)] at hinput
      cases hinput
  · exact failsOnly_presence
  · exact failsOnly_extensible
  · exact failsOnly_addClause
  · exact failsOnly_setNegated
  · intro f r strict e h
    obtain ⟨q, hq⟩ | ⟨hnot, fault, rfl⟩ := error_cases h
    · rw [Matcher.answer_unsupported] at hq
      cases hq
      exact ⟨rfl, fun _ => ⟨q.kind, rfl⟩⟩
    · exact ⟨rfl, fun hcompiles => absurd hcompiles hnot⟩

/-- An assertion whose matching rule is neither an object identifier nor a descriptor. -/
def spacedRule : Extensible :=
  { matchType := none, rule := some "a b", value := [], dnAttributes := false, substrings := none }

/-- A disjunction that an assertion with fragments does not decide. -/
def undecided : Filter :=
  .or [substring "cn" { initial := none, any := [[0x61]], final := none }, leaf (.extensible spacedRule)]

/-- Octets that encode such an assertion. -/
def spacedRuleBer : Octets :=
  [0xA9, 0x07, 0x81, 0x03, 0x61, 0x20, 0x62, 0x83, 0x00]

/-- One fault is noticed by both readers and in memory, and not at all by matching. -/
theorem spacedRule_kept_apart :
    (∃ e, parse "(:a b:=)" = .error e ∧ e.IsTextual ∧ e.isMalformedInput = true) ∧
    (∃ e, ofBer spacedRuleBer = .error e ∧ e.IsBinary ∧ e.isMalformedInput = true) ∧
    (∃ e, extensible spacedRule = .error e ∧ e.IsOfNode) ∧
    undecided.Compiles ∧ ∃ e, undecided.holds .empty true = .error e ∧ e.IsUndecided := by
  obtain ⟨⟨htext, _⟩, ⟨hoctets, _⟩, hinput, ⟨_, hnode, _⟩, hmatch⟩ := errors_kept_apart
  have hparse : parse "(:a b:=)" = .error (.parse (.node (.badRule "a b"))) := by cbv
  have hdecode : ofBer spacedRuleBer = .error (.ber (.node (.badRule "a b"))) := by cbv
  have hcompiles : undecided.Compiles := by decide +kernel
  have htextual := htext _ _ hparse
  have hbinary := hoctets _ _ hdecode
  refine ⟨⟨_, hparse, htextual, (hinput _ (.inl htextual)).1⟩,
    ⟨_, hdecode, hbinary, (hinput _ (.inr hbinary)).1⟩, ⟨_, rfl, hnode spacedRule _ rfl⟩, hcompiles, ?_⟩
  exact ⟨_, rfl, (hmatch undecided .empty true _ rfl).2 hcompiles⟩

end Filter

end SearchFilter
